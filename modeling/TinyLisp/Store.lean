import TinyLisp.Bindings
import TinyLisp.Text.NameSet

/-!
# Frames and the store

A frame binds names to values and is enclosed by another frame, unless it is a root.
The store holds every frame that was ever made, in the order of making, so a frame is
enclosed by an earlier one.  The number of a frame is its place in that order.

* `Store.get?` and `Store.set` read and change the names of one frame.
* `Store.find?` walks from a frame outward to the first that binds a name.
* `Store.visible` lists every name bound on the way out.
-/

namespace TinyLisp

/-- Bindings, and the frame that encloses them. -/
structure Frame where
  /-- The number of the enclosing frame. -/
  outer : Option Nat
  bindings : Bindings

/-- All frames, and the number of closures made so far. -/
structure Store where
  frames : Array Frame
  closures : Nat

namespace Store

/-- A store without frames. -/
def empty : Store := ⟨#[], 0⟩

/-- The value that a frame binds a name to, without regard to the frames around it. -/
def get? (store : Store) (frame : Nat) (name : String) : Option Value :=
  match store.frames[frame]? with
  | some frame => frame.bindings.get? name
  | none => none

/-- Binds a name in a frame.  No other frame changes. -/
def set (store : Store) (frame : Nat) (name : String) (value : Value) : Store :=
  { store with
    frames := store.frames.modify frame fun frame =>
      { frame with bindings := frame.bindings.set name value } }

/-- The number that the next frame will have. -/
def nextFrame (store : Store) : Nat :=
  store.frames.size

/-- Makes a frame.  Its number is the `nextFrame` of the store before. -/
def push (store : Store) (frame : Frame) : Store :=
  { store with frames := store.frames.push frame }

/-- Makes a frame that binds nothing and is enclosed by `outer`. -/
def enclose (store : Store) (outer : Nat) : Store :=
  store.push ⟨some outer, []⟩

/-- Makes a root frame that binds nothing. -/
def addRoot (store : Store) : Store :=
  store.push ⟨none, []⟩

/-- The bindings of a new global frame: every builtin under its name. -/
def globalBindings : Bindings :=
  Builtin.all.map fun builtin => (builtin.name, .procedure (.builtin builtin))

/-- Makes a global frame. -/
def addGlobal (store : Store) : Store :=
  store.push ⟨none, globalBindings⟩

/-- The first frame that binds a name, from a frame outward. -/
def find? (store : Store) (frame : Nat) (name : String) : Option Nat :=
  match store.frames[frame]? with
  | none => none
  | some ⟨outer, bindings⟩ =>
    match bindings.get? name with
    | some _ => some frame
    | none =>
      match outer with
      | none => none
      | some outer => if outer < frame then store.find? outer name else none
termination_by frame

/-- The value of a name in the scope of a frame. -/
def lookup? (store : Store) (frame : Nat) (name : String) : Option Value :=
  match store.find? frame name with
  | some owner => store.get? owner name
  | none => none

/-- Every name bound from a frame outward. -/
def namesInScope (store : Store) (frame : Nat) : List String :=
  match store.frames[frame]? with
  | none => []
  | some ⟨outer, bindings⟩ =>
    bindings.names ++
      match outer with
      | none => []
      | some outer => if outer < frame then store.namesInScope outer else []
termination_by frame

/-- The set of the names bound from a frame outward. -/
def visible (store : Store) (frame : Nat) : List String :=
  Text.nameSet (store.namesInScope frame)

/-! ## What the operations do -/

@[simp] theorem size_set (store : Store) (frame : Nat) (name : String) (value : Value) :
    (store.set frame name value).frames.size = store.frames.size := by
  simp [set]

@[simp] theorem size_push (store : Store) (frame : Frame) :
    (store.push frame).frames.size = store.frames.size + 1 := by
  simp [push]

/-- A new frame has the number that was announced. -/
@[simp] theorem getElem?_push_nextFrame (store : Store) (frame : Frame) :
    (store.push frame).frames[store.nextFrame]? = some frame := by
  simp [push, nextFrame]

/-- A new frame leaves the others as they are. -/
theorem getElem?_push_of_lt {store : Store} {other : Nat} (h : other < store.nextFrame)
    (frame : Frame) : (store.push frame).frames[other]? = store.frames[other]? := by
  simp only [push, nextFrame] at *
  rw [Array.getElem?_push]
  exact if_neg (Nat.ne_of_lt h)

/-- Binding a name changes one frame, and in it one name. -/
theorem get?_set (store : Store) (frame other : Nat) (name wanted : String) (value : Value) :
    (store.set frame name value).get? other wanted =
      if frame = other ∧ name = wanted ∧ other < store.frames.size then some value
      else store.get? other wanted := by
  simp only [get?, set, Array.getElem?_modify]
  by_cases hframe : frame = other
  · subst hframe
    cases hat : store.frames[frame]? with
    | none =>
      rw [Array.getElem?_eq_none_iff] at hat
      simp only [if_true, Option.map_none]
      rw [if_neg]
      exact fun h => Nat.not_lt.mpr hat h.2.2
    | some found =>
      have hlt : frame < store.frames.size := (Array.getElem?_eq_some_iff.mp hat).1
      simp only [if_true, Option.map_some, Bindings.get?_set, hlt, and_true, true_and]
  · simp [hframe]

theorem get?_set_self {store : Store} {frame : Nat} (h : frame < store.frames.size)
    (name : String) (value : Value) :
    (store.set frame name value).get? frame name = some value := by
  rw [get?_set, if_pos ⟨rfl, rfl, h⟩]

/-- A name is found where it is bound. -/
theorem isSome_get?_of_find? {store : Store} {frame owner : Nat} {name : String}
    (h : store.find? frame name = some owner) : (store.get? owner name).isSome := by
  fun_induction store.find? frame name <;> simp_all [get?]

end Store

end TinyLisp
