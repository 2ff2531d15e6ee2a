import Mathlib.Logic.Relation
import TinyLisp.Proofs.Scope

/-!
# Chains of frames

The chain of a frame is the frame itself, the frame that encloses it, and so on outward up to a
frame that no other encloses.  In a well-formed store every frame has a chain, and it never meets a
frame twice.

* `Store.Outward`: a frame is on the chain of another.
* `Store.Chain`: the whole chain as a list.  A walk that ran in a circle would have none.
* `Chain.find?_eq`, `Chain.lookup?_eq` and `Chain.mem_visible_iff`: the walks of the library pass
  through the chain and through nothing else.
-/

namespace TinyLisp.Store

open Relation

/-- The second frame is on the chain that leads outward from the first. -/
def Outward (store : Store) : Nat → Nat → Prop :=
  ReflTransGen fun frame outer => store.outer? frame = some outer

/-- These are the frames on the way outward from a frame, from the frame itself to one that no
frame encloses. -/
inductive Chain (store : Store) : Nat → List Nat → Prop where
  | root {frame : Nat} (hroot : store.outer? frame = none) : Chain store frame [frame]
  | outer {frame outer : Nat} {rest : List Nat} (houter : store.outer? frame = some outer)
      (hrest : Chain store outer rest) : Chain store frame (frame :: rest)

variable {store : Store} {frame owner : Nat} {name : String} {chain : List Nat}

theorem Resolves.outward (h : store.Resolves frame name owner) : store.Outward frame owner := by
  induction h with
  | here => exact .refl
  | outer _ houter _ ih => exact .head houter ih

/-- A frame on the way outward was made no later. -/
theorem WellFormed.le_of_outward (h : store.WellFormed) {other : Nat}
    (houtward : store.Outward frame other) : other ≤ frame := by
  induction houtward with
  | refl => exact Nat.le_refl _
  | tail _ houter ih => exact Nat.le_trans (Nat.le_of_lt (h.outer_lt houter)) ih

/-- The way outward comes to an end. -/
theorem WellFormed.exists_chain (h : store.WellFormed) (frame : Nat) :
    ∃ chain, store.Chain frame chain := by
  induction frame using Nat.strongRecOn with
  | ind frame ih =>
    cases houter : store.outer? frame with
    | none => exact ⟨_, .root houter⟩
    | some outer =>
      obtain ⟨rest, hrest⟩ := ih outer (h.outer_lt houter)
      exact ⟨_, .outer houter hrest⟩

/-- The names in the scope of a frame are those that it binds and those in the scope of the frame
that encloses it. -/
theorem WellFormed.mem_namesInScope_iff (h : store.WellFormed) :
    name ∈ store.namesInScope frame ↔ (store.get? frame name).isSome ∨
      ∃ outer, store.outer? frame = some outer ∧ name ∈ store.namesInScope outer := by
  rw [namesInScope]
  cases hat : store.frames[frame]? with
  | none => simp [get?, outer?, hat]
  | some found =>
    obtain ⟨outer, bindings⟩ := found
    rw [List.mem_append, ← Bindings.get?_isSome_iff]
    cases outer with
    | none => simp [get?, outer?, hat]
    | some outer =>
      have hlt : outer < frame := h.outer_lt (by simp [outer?, hat])
      simp [get?, outer?, hat, hlt]

namespace Chain

theorem le_of_mem (h : store.Chain frame chain) (hstore : store.WellFormed) {other : Nat}
    (hmem : other ∈ chain) : other ≤ frame := by
  induction h with
  | root => exact Nat.le_of_eq (List.mem_singleton.mp hmem)
  | outer houter _ ih =>
    rcases List.mem_cons.mp hmem with rfl | hrest
    · exact Nat.le_refl _
    · exact Nat.le_trans (ih hrest) (Nat.le_of_lt (hstore.outer_lt houter))

/-- Every frame of a chain was made before the ones that it encloses. -/
theorem pairwise (h : store.Chain frame chain) (hstore : store.WellFormed) :
    chain.Pairwise (· > ·) := by
  induction h with
  | root => exact List.pairwise_singleton ..
  | outer houter hrest ih =>
    refine List.pairwise_cons.mpr ⟨fun other hmem => ?_, ih⟩
    exact Nat.lt_of_le_of_lt (hrest.le_of_mem hstore hmem) (hstore.outer_lt houter)

/-- A name is found in the first frame of the chain that binds it. -/
theorem find?_eq (h : store.Chain frame chain) (hstore : store.WellFormed) (name : String) :
    store.find? frame name = chain.find? fun f => (store.get? f name).isSome := by
  induction h with
  | @root frame hroot =>
    rw [hstore.find?_eq, hroot, List.find?_singleton]
    rfl
  | @outer frame outer rest houter _ ih =>
    rw [hstore.find?_eq, List.find?_cons, houter, Option.bind_some, ih]
    cases store.get? frame name <;> simp

/-- The value of a name is that in the first frame of the chain that binds it. -/
theorem lookup?_eq (h : store.Chain frame chain) (hstore : store.WellFormed) (name : String) :
    store.lookup? frame name = chain.findSome? fun f => store.get? f name := by
  rw [lookup?, h.find?_eq hstore]
  clear h
  induction chain with
  | nil => rfl
  | cons f rest ih =>
    rw [List.find?_cons, List.findSome?_cons]
    cases hvalue : store.get? f name with
    | none => simpa using ih
    | some value => simpa using hvalue

/-- A name is visible if a frame of the chain binds it. -/
theorem mem_visible_iff (h : store.Chain frame chain) (hstore : store.WellFormed) (name : String) :
    name ∈ store.visible frame ↔ ∃ f ∈ chain, (store.get? f name).isSome := by
  rw [visible, Text.mem_nameSet]
  induction h with
  | root hroot =>
    rw [hstore.mem_namesInScope_iff]
    simp [hroot]
  | outer houter _ ih =>
    rw [hstore.mem_namesInScope_iff]
    simp [houter, ih]

end Chain

/-- A visible name is one that is found. -/
theorem WellFormed.mem_visible_iff (h : store.WellFormed) :
    name ∈ store.visible frame ↔ ∃ owner, store.Resolves frame name owner := by
  obtain ⟨chain, hchain⟩ := h.exists_chain frame
  rw [hchain.mem_visible_iff h]
  simp only [← h.find?_eq_some_iff, hchain.find?_eq h]
  rw [← Option.isSome_iff_exists, List.find?_isSome]

/-- A name is visible exactly if it is found. -/
theorem WellFormed.mem_visible_iff_find? (hstore : store.WellFormed) :
    name ∈ store.visible frame ↔ ∃ owner, store.find? frame name = some owner := by
  simp only [hstore.mem_visible_iff, hstore.find?_eq_some_iff]

end TinyLisp.Store
