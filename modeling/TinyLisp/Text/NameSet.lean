/-!
# Sets of names

A set of names is the list of its members in strictly increasing order of code
points.
-/

namespace TinyLisp.Text

/-- Adds a name to an increasing list, unless it is there already. -/
def insertName (name : String) : List String → List String
  | [] => [name]
  | other :: rest =>
    if name < other then name :: other :: rest
    else if name = other then other :: rest
    else other :: insertName name rest

/-- The members of a list, each once and in increasing order. -/
def nameSet (names : List String) : List String :=
  names.foldr insertName []

theorem mem_insertName {name other : String} {names : List String} :
    other ∈ insertName name names ↔ other = name ∨ other ∈ names := by
  induction names with
  | nil => simp [insertName]
  | cons head rest ih =>
    simp only [insertName]
    split
    · simp
    · split
      · simp_all
      · simp only [List.mem_cons, ih]
        grind

/-- A set of names has the members of the list that it is made of. -/
theorem mem_nameSet {name : String} {names : List String} : name ∈ nameSet names ↔ name ∈ names := by
  induction names with
  | nil => simp [nameSet]
  | cons head rest ih =>
    simp only [nameSet, List.foldr_cons, mem_insertName, List.mem_cons] at *
    rw [ih]

theorem pairwise_insertName {name : String} {names : List String}
    (h : names.Pairwise (· < ·)) : (insertName name names).Pairwise (· < ·) := by
  induction names with
  | nil => simp [insertName]
  | cons head rest ih =>
    rw [List.pairwise_cons] at h
    simp only [insertName]
    split
    · rename_i hlt
      rw [List.pairwise_cons, List.pairwise_cons]
      refine ⟨fun other hother => ?_, h⟩
      rcases List.mem_cons.mp hother with rfl | hrest
      · exact hlt
      · exact String.lt_trans hlt (h.1 other hrest)
    · split
      · exact List.pairwise_cons.mpr h
      · rename_i hlt hne
        rw [List.pairwise_cons]
        refine ⟨fun other hother => ?_, ih h.2⟩
        rcases mem_insertName.mp hother with rfl | hrest
        · rcases Std.lt_trichotomy other head with hlt' | heq | hgt
          · exact absurd hlt' hlt
          · exact absurd heq hne
          · exact hgt
        · exact h.1 other hrest

/-- The members of a set of names are in strictly increasing order. -/
theorem pairwise_nameSet (names : List String) : (nameSet names).Pairwise (· < ·) := by
  induction names with
  | nil => simp [nameSet]
  | cons head rest ih => exact pairwise_insertName ih

end TinyLisp.Text
