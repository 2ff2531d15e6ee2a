import TinyLisp.Value

/-!
# Bindings

The names that one frame binds and their values.  `Bindings.get?` looks a name up and
`Bindings.set` binds it, and `get?_set` says how the two go together.
-/

namespace TinyLisp

/-- The names that a frame binds, each once, in the order in which they were first bound. -/
abbrev Bindings := List (String × Value)

namespace Bindings

/-- The value of a name. -/
def get? (name : String) : Bindings → Option Value
  | [] => none
  | (other, value) :: rest => if other = name then some value else get? name rest

/-- Binds a name, in the place of an older binding of it. -/
def set (name : String) (value : Value) : Bindings → Bindings
  | [] => [(name, value)]
  | (other, old) :: rest =>
    if other = name then (name, value) :: rest else (other, old) :: set name value rest

/-- Binds names from left to right, so that the last binding of a name holds. -/
def ofPairs (pairs : List (String × Value)) : Bindings :=
  pairs.foldl (fun bindings (name, value) => bindings.set name value) []

/-- The names bound. -/
def names (bindings : Bindings) : List String :=
  bindings.map Prod.fst

theorem get?_set (bindings : Bindings) (name other : String) (value : Value) :
    (bindings.set name value).get? other =
      if name = other then some value else bindings.get? other := by
  induction bindings with
  | nil => rfl
  | cons pair rest ih =>
    obtain ⟨head, old⟩ := pair
    simp only [set]
    split
    · subst_vars
      simp only [get?]
      split <;> rfl
    · simp only [get?, ih]
      split
      · split
        · simp_all
        · rfl
      · rfl

@[simp] theorem get?_set_self (bindings : Bindings) (name : String) (value : Value) :
    (bindings.set name value).get? name = some value := by
  simp [get?_set]

theorem get?_set_of_ne {name other : String} (h : name ≠ other) (bindings : Bindings)
    (value : Value) : (bindings.set name value).get? other = bindings.get? other := by
  simp [get?_set, h]

theorem get?_isSome_iff {bindings : Bindings} {name : String} :
    (bindings.get? name).isSome ↔ name ∈ bindings.names := by
  induction bindings with
  | nil => simp [get?, names]
  | cons pair rest ih =>
    obtain ⟨head, value⟩ := pair
    simp only [get?, names, List.map_cons, List.mem_cons]
    split
    · simp_all
    · rw [ih]
      simp [names, eq_comm (a := name), *]

end Bindings

end TinyLisp
