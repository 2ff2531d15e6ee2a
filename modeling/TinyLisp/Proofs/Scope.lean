import Mathlib.Data.List.Induction
import TinyLisp.Store

/-!
# Scopes

The scope of a frame is the chain that leads from it outward.  `Store.Resolves` says which
frame on that chain a name belongs to, without the bound that lets `Store.find?` stop on
a chain that runs in a circle.

A store is well formed if no chain can run in a circle and every closure captures a frame
that there is.  There are four groups.

* `Value.ForClosures` and `Value.Within`: what the closures among the values may be.
* `Store.ForClosures`, with one lemma for each operation that changes a store.
* Well-formed stores, and one lemma for each operation that keeps a store well formed.
* Resolution: in a well-formed store `find?_eq_some_iff` and `lookup?_eq_some_iff` say that
  the walks of the library find exactly what the relation says.
-/

namespace TinyLisp

/-! ## Values of a store -/

/-- The closure that a procedure is, if it is one, has the property. -/
def Procedure.ForClosures (P : Closure → Prop) : Procedure → Prop
  | .builtin _ => True
  | .closure c => P c

/-- The closure that a value is, if it is one, has the property. -/
def Value.ForClosures (P : Closure → Prop) : Value → Prop
  | .number _ => True
  | .procedure p => p.ForClosures P

theorem Procedure.ForClosures.mono {P Q : Closure → Prop} {procedure : Procedure}
    (h : procedure.ForClosures P) (himp : ∀ closure, P closure → Q closure) :
    procedure.ForClosures Q := by
  cases procedure with
  | builtin => trivial
  | closure c => exact himp c h

theorem Value.ForClosures.mono {P Q : Closure → Prop} {value : Value} (h : value.ForClosures P)
    (himp : ∀ closure, P closure → Q closure) : value.ForClosures Q := by
  cases value with
  | number => trivial
  | procedure p => exact Procedure.ForClosures.mono h himp

/-- The frame that a procedure captures, if it captures one, is one of the first `count`. -/
def Procedure.Within (count : Nat) (procedure : Procedure) : Prop :=
  procedure.ForClosures fun closure => closure.frame < count

/-- The frame that a value captures, if it captures one, is one of the first `count`. -/
def Value.Within (count : Nat) (value : Value) : Prop :=
  value.ForClosures fun closure => closure.frame < count

theorem Procedure.Within.mono {small large : Nat} {procedure : Procedure}
    (h : procedure.Within small) (hle : small ≤ large) : procedure.Within large :=
  ForClosures.mono h fun _ hlt => Nat.lt_of_lt_of_le hlt hle

theorem Value.Within.mono {small large : Nat} {value : Value} (h : value.Within small)
    (hle : small ≤ large) : value.Within large :=
  ForClosures.mono h fun _ hlt => Nat.lt_of_lt_of_le hlt hle

/-- One more value behind some others. -/
theorem Value.forClosures_append_singleton {P : Closure → Prop} {values : List Value}
    {last : Value} (hvalues : ∀ value ∈ values, value.ForClosures P) (hlast : last.ForClosures P) :
    ∀ value ∈ values ++ [last], value.ForClosures P := by
  intro value hmem
  rcases List.mem_append.mp hmem with hold | hnew
  · exact hvalues value hold
  · rw [List.mem_singleton.mp hnew]
    exact hlast

theorem Value.within_append_singleton {small large : Nat} {values : List Value} {last : Value}
    (hvalues : ∀ value ∈ values, value.Within small) (hle : small ≤ large)
    (hlast : last.Within large) : ∀ value ∈ values ++ [last], value.Within large :=
  forClosures_append_singleton (fun value hmem => (hvalues value hmem).mono hle) hlast

/-! ## Bound values -/

namespace Bindings

theorem ofPairs_append_singleton (pairs : List (String × Value)) (name : String)
    (value : Value) :
    ofPairs (pairs ++ [(name, value)]) = (ofPairs pairs).set name value := by
  simp [ofPairs]

theorem mem_of_get? {bindings : Bindings} {name : String} {value : Value}
    (h : bindings.get? name = some value) : (name, value) ∈ bindings := by
  induction bindings with
  | nil => simp [get?] at h
  | cons pair rest ih =>
    obtain ⟨other, first⟩ := pair
    simp only [get?] at h
    split at h
    · rename_i heq
      cases h
      simp [heq]
    · exact List.mem_cons_of_mem _ (ih h)

/-- A value that is bound comes from one of the pairs. -/
theorem mem_of_get?_ofPairs {pairs : List (String × Value)} {name : String} {value : Value}
    (h : (ofPairs pairs).get? name = some value) : (name, value) ∈ pairs := by
  induction pairs using List.reverseRecOn with
  | nil => simp [ofPairs, get?] at h
  | append_singleton pairs pair ih =>
    obtain ⟨other, new⟩ := pair
    rw [ofPairs_append_singleton, get?_set] at h
    rw [List.mem_append, List.mem_singleton]
    split at h
    · rename_i heq
      cases h
      exact .inr (by rw [heq])
    · exact .inl (ih h)

theorem isSome_get?_ofPairs_iff {pairs : List (String × Value)} {name : String} :
    ((ofPairs pairs).get? name).isSome ↔ name ∈ pairs.map Prod.fst := by
  induction pairs using List.reverseRecOn with
  | nil => simp [ofPairs, get?]
  | append_singleton pairs pair ih =>
    rw [ofPairs_append_singleton, get?_set, List.map_append, List.mem_append, ← ih,
      List.map_singleton, List.mem_singleton]
    by_cases hname : pair.1 = name
    · rw [if_pos hname]
      exact iff_of_true rfl (.inr hname.symm)
    · rw [if_neg hname, or_iff_left fun heq => hname heq.symm]

end Bindings

namespace Store

/-! ## One step of a store -/

/-- The frame that encloses a frame. -/
def outer? (store : Store) (frame : Nat) : Option Nat :=
  store.frames[frame]?.bind Frame.outer

variable {store : Store} {frame outer owner : Nat} {name : String} {value : Value}

theorem lt_size_of_outer? (h : store.outer? frame = some outer) : frame < store.frames.size := by
  rw [outer?, Option.bind_eq_some_iff] at h
  obtain ⟨found, hfound, _⟩ := h
  exact (Array.getElem?_eq_some_iff.mp hfound).1

theorem lt_size_of_get? (h : store.get? frame name = some value) : frame < store.frames.size := by
  unfold get? at h
  split at h
  · rename_i hfound
    exact (Array.getElem?_eq_some_iff.mp hfound).1
  · simp at h

@[simp] theorem outer?_set (store : Store) (frame other : Nat) (name : String) (value : Value) :
    (store.set frame name value).outer? other = store.outer? other := by
  simp only [outer?, set, Array.getElem?_modify]
  split
  · cases store.frames[other]? <;> rfl
  · rfl

@[simp] theorem nextFrame_set (store : Store) (frame : Nat) (name : String) (value : Value) :
    (store.set frame name value).nextFrame = store.nextFrame :=
  size_set ..

/-- Making a frame changes no other. -/
theorem getElem?_push (store : Store) (frame : Frame) (other : Nat) :
    (store.push frame).frames[other]? =
      if other = store.nextFrame then some frame else store.frames[other]? :=
  Array.getElem?_push

theorem outer?_push (store : Store) (frame : Frame) (other : Nat) :
    (store.push frame).outer? other =
      if other = store.nextFrame then frame.outer else store.outer? other := by
  rw [outer?, getElem?_push]
  split <;> rfl

theorem get?_push (store : Store) (frame : Frame) (other : Nat) (name : String) :
    (store.push frame).get? other name =
      if other = store.nextFrame then frame.bindings.get? name else store.get? other name := by
  rw [get?, getElem?_push]
  by_cases hlast : other = store.nextFrame
  · simp only [if_pos hlast]
  · simp only [if_neg hlast, get?]

theorem outer?_push_of_lt (h : other < store.nextFrame) (frame : Frame) :
    (store.push frame).outer? other = store.outer? other := by
  rw [outer?_push, if_neg (Nat.ne_of_lt h)]

@[simp] theorem outer?_push_nextFrame (store : Store) (frame : Frame) :
    (store.push frame).outer? store.nextFrame = frame.outer := by
  rw [outer?_push, if_pos rfl]

theorem get?_push_of_lt (h : other < store.nextFrame) (frame : Frame) (name : String) :
    (store.push frame).get? other name = store.get? other name := by
  rw [get?_push, if_neg (Nat.ne_of_lt h)]

@[simp] theorem get?_push_nextFrame (store : Store) (frame : Frame) (name : String) :
    (store.push frame).get? store.nextFrame name = frame.bindings.get? name := by
  rw [get?_push, if_pos rfl]

/-- A frame of a store with a new frame is either an old one or the new one. -/
theorem lt_or_eq_of_lt_size_push {frame : Frame} (h : other < (store.push frame).frames.size) :
    other < store.nextFrame ∨ other = store.nextFrame := by
  rw [size_push] at h
  exact Nat.lt_or_eq_of_le (Nat.le_of_lt_succ h)

/-! ## The closures of a store -/

/-- Every closure that is bound in a frame of the store has the property. -/
def ForClosures (P : Closure → Prop) (store : Store) : Prop :=
  ∀ frame name value, store.get? frame name = some value → value.ForClosures P

/-- A frame of the store binds a name to the closure. -/
def Binds (store : Store) (closure : Closure) : Prop :=
  ∃ frame name, store.get? frame name = some (.procedure (.closure closure))

theorem forClosures_iff {P : Closure → Prop} :
    store.ForClosures P ↔ ∀ closure, store.Binds closure → P closure := by
  constructor
  · rintro h closure ⟨frame, name, hvalue⟩
    exact h frame name _ hvalue
  · intro h frame name value hvalue
    cases value with
    | number => trivial
    | procedure p =>
      cases p with
      | builtin => trivial
      | closure c => exact h c ⟨frame, name, hvalue⟩

namespace ForClosures

variable {P Q : Closure → Prop}

theorem mono (h : store.ForClosures P) (himp : ∀ closure, P closure → Q closure) :
    store.ForClosures Q :=
  fun frame name value hvalue => (h frame name value hvalue).mono himp

theorem empty : Store.empty.ForClosures P :=
  fun _ _ _ hvalue => absurd (lt_size_of_get? hvalue) (Nat.not_lt_zero _)

theorem set (h : store.ForClosures P) (frame : Nat) (name : String)
    (hvalue : value.ForClosures P) : (store.set frame name value).ForClosures P := by
  intro other wanted found hfound
  rw [get?_set] at hfound
  split at hfound
  · cases hfound
    exact hvalue
  · exact h other wanted found hfound

theorem push (h : store.ForClosures P) {frame : Frame}
    (hbindings : ∀ name value, frame.bindings.get? name = some value → value.ForClosures P) :
    (store.push frame).ForClosures P := by
  intro other name value hvalue
  rcases lt_or_eq_of_lt_size_push (lt_size_of_get? hvalue) with hlt | rfl
  · rw [get?_push_of_lt hlt] at hvalue
    exact h other name value hvalue
  · rw [get?_push_nextFrame] at hvalue
    exact hbindings name value hvalue

/-- A global frame binds no closure. -/
theorem addGlobal (h : store.ForClosures P) : store.addGlobal.ForClosures P := by
  refine h.push fun name value hvalue => ?_
  have hbuiltin : ∃ builtin, value = .procedure (.builtin builtin) := by
    have hmem := Bindings.mem_of_get? hvalue
    obtain ⟨builtin, -, heq⟩ := List.mem_map.mp hmem
    exact ⟨builtin, (Prod.mk.inj heq).2.symm⟩
  obtain ⟨builtin, rfl⟩ := hbuiltin
  trivial

/-- The frame of a call binds the arguments. -/
theorem enter (h : store.ForClosures P) {outer : Nat} {names : List String} {values : List Value}
    (hvalues : ∀ value ∈ values, value.ForClosures P) :
    (store.push ⟨some outer, Bindings.ofPairs (names.zip values)⟩).ForClosures P :=
  h.push fun _ value hvalue =>
    hvalues value (List.of_mem_zip (Bindings.mem_of_get?_ofPairs hvalue)).2

end ForClosures

/-! ## Well-formed stores -/

/-- Frames are enclosed by earlier ones, and every closure captures a frame of the store. -/
structure WellFormed (store : Store) : Prop where
  outer_lt : ∀ {frame outer : Nat}, store.outer? frame = some outer → outer < frame
  within : store.ForClosures fun closure => closure.frame < store.frames.size

namespace WellFormed

theorem empty : Store.empty.WellFormed where
  outer_lt h := absurd (lt_size_of_outer? h) (Nat.not_lt_zero _)
  within := .empty

/-- Binding a name to a value that captures a frame of the store. -/
theorem set (h : store.WellFormed) (frame : Nat) (name : String)
    (hvalue : value.Within store.frames.size) : (store.set frame name value).WellFormed where
  outer_lt := by
    intro other outer houter
    rw [outer?_set] at houter
    exact h.outer_lt houter
  within := by
    rw [size_set]
    exact h.within.set frame name hvalue

/-- Making a frame that is enclosed by a frame of the store, if by any. -/
theorem push (h : store.WellFormed) {frame : Frame}
    (houter : ∀ outer, frame.outer = some outer → outer < store.frames.size)
    (hframe : (store.push frame).ForClosures fun closure => closure.frame < store.frames.size) :
    (store.push frame).WellFormed where
  outer_lt := by
    intro other outer hother
    rcases lt_or_eq_of_lt_size_push (lt_size_of_outer? hother) with hlt | rfl
    · rw [outer?_push_of_lt hlt] at hother
      exact h.outer_lt hother
    · rw [outer?_push_nextFrame] at hother
      exact houter outer hother
  within := by
    rw [size_push]
    exact hframe.mono fun _ hlt => Nat.lt_succ_of_lt hlt

/-- Counting one more closure. -/
theorem count (h : store.WellFormed) (closures : Nat) :
    ({ store with closures } : Store).WellFormed where
  outer_lt := h.outer_lt
  within := h.within

/-- Making a global frame. -/
theorem addGlobal (h : store.WellFormed) : store.addGlobal.WellFormed :=
  h.push (fun outer houter => by simp at houter) h.within.addGlobal

/-- Making the frame of a call. -/
theorem enter (h : store.WellFormed) {outer : Nat} {names : List String} {values : List Value}
    (houter : outer < store.frames.size)
    (hvalues : ∀ value ∈ values, value.Within store.frames.size) :
    (store.push ⟨some outer, Bindings.ofPairs (names.zip values)⟩).WellFormed := by
  refine h.push (fun other hother => ?_) (h.within.enter hvalues)
  cases hother
  exact houter

end WellFormed

/-! ## Resolution -/

/-- A name in the scope of a frame belongs to the innermost frame that binds it. -/
inductive Resolves (store : Store) : Nat → String → Nat → Prop where
  | here {frame : Nat} {name : String} (hbound : (store.get? frame name).isSome) :
      Resolves store frame name frame
  | outer {frame outer owner : Nat} {name : String} (hfree : store.get? frame name = none)
      (houter : store.outer? frame = some outer) (howner : Resolves store outer name owner) :
      Resolves store frame name owner

/-- The walk outward, frame by frame.  It stops where a chain does not lead to an earlier frame. -/
theorem find?_eq (store : Store) (frame : Nat) (name : String) :
    store.find? frame name =
      if (store.get? frame name).isSome then some frame
      else (store.outer? frame).bind fun outer =>
        if outer < frame then store.find? outer name else none := by
  rw [find?]
  cases hat : store.frames[frame]? with
  | none => simp [get?, outer?, hat]
  | some found =>
    obtain ⟨outer, bindings⟩ := found
    cases hget : bindings.get? name with
    | some value => simp [get?, hat, hget]
    | none => cases outer <;> simp [get?, outer?, hat, hget]

/-- The walk asks only which frames enclose which, and which of them bind the name. -/
theorem find?_congr {after : Store} (houter : ∀ frame, after.outer? frame = store.outer? frame)
    (hbound : ∀ frame, (after.get? frame name).isSome = (store.get? frame name).isSome)
    (frame : Nat) : after.find? frame name = store.find? frame name := by
  induction frame using Nat.strongRecOn with
  | ind frame ih =>
    rw [find?_eq, find?_eq, houter, hbound]
    congr 1
    cases store.outer? frame with
    | none => rfl
    | some outer =>
      simp only [Option.bind_some]
      split
      · exact ih outer ‹_›
      · rfl

theorem WellFormed.find?_eq (h : store.WellFormed) (frame : Nat) (name : String) :
    store.find? frame name =
      if (store.get? frame name).isSome then some frame
      else (store.outer? frame).bind fun outer => store.find? outer name := by
  rw [Store.find?_eq]
  cases houter : store.outer? frame with
  | none => rfl
  | some outer => simp only [Option.bind_some, if_pos (h.outer_lt houter)]

/-- The walk outward ends at the innermost frame that binds the name. -/
theorem WellFormed.find?_eq_some_iff (h : store.WellFormed) :
    store.find? frame name = some owner ↔ store.Resolves frame name owner := by
  constructor
  · induction frame using Nat.strongRecOn with
    | ind frame ih =>
      intro hfind
      rw [h.find?_eq] at hfind
      split at hfind
      · rename_i hbound
        cases hfind
        exact .here hbound
      · rename_i hfree
        obtain ⟨outer, houter, hrest⟩ := Option.bind_eq_some_iff.mp hfind
        exact .outer (by simpa using hfree) houter (ih outer (h.outer_lt houter) hrest)
  · intro hresolves
    induction hresolves with
    | here hbound => rw [h.find?_eq, if_pos hbound]
    | outer hfree houter _ ih =>
      rw [h.find?_eq, if_neg (by simp [hfree]), houter]
      exact ih

theorem WellFormed.find?_eq_none_iff (h : store.WellFormed) :
    store.find? frame name = none ↔ ∀ owner, ¬store.Resolves frame name owner := by
  rw [Option.eq_none_iff_forall_ne_some]
  exact forall_congr' fun owner => not_congr h.find?_eq_some_iff

/-- The value of a name is the one that the frame of the name binds. -/
theorem WellFormed.lookup?_eq_some_iff (h : store.WellFormed) :
    store.lookup? frame name = some value ↔
      ∃ owner, store.Resolves frame name owner ∧ store.get? owner name = some value := by
  simp only [← h.find?_eq_some_iff]
  unfold lookup?
  cases store.find? frame name <;> simp

/-- A name has no value only if no frame of the scope binds it. -/
theorem WellFormed.lookup?_eq_none_iff (h : store.WellFormed) :
    store.lookup? frame name = none ↔ ∀ owner, ¬store.Resolves frame name owner := by
  rw [← h.find?_eq_none_iff]
  unfold lookup?
  cases hfind : store.find? frame name with
  | none => simp
  | some owner =>
    have hbound := isSome_get?_of_find? hfind
    simp only [reduceCtorEq, iff_false]
    intro hnone
    simp [hnone] at hbound

end Store

end TinyLisp
