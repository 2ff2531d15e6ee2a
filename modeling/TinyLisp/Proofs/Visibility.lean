import TinyLisp.Eval
import TinyLisp.Proofs.Chains

/-!
# Names and the frames that bind them

To list the names in scope, to find the frame of a name and to look its value up are three walks
along the same chain.  They agree, and they agree on what a new binding changes: a name is found
elsewhere than before only if it is the name that was bound, in a frame of the chain that is no
further out than the one where it was found.

* `Store.Sees`: the frames in which a binding would be the one that is found.
* `Chain.find?_eq_some_iff`: a name is found in the first frame of the chain that binds it.
* `WellFormed.find?_set_of_sees` and `WellFormed.find?_set_of_not_sees`: what is found behind a new
  binding.
* `WellFormed.names_agree`: the three walks, before a binding and behind it.
-/

namespace TinyLisp.Store

variable {store : Store} {frame other owner : Nat} {name given : String} {chain : List Nat}

/-- From the frame, a binding of the name in the other frame is the one that is found.  The other
frame is on the chain, and the frame where the name is found, if it is found, is that one or one
further out. -/
def Sees (store : Store) (frame : Nat) (name : String) (other : Nat) : Prop :=
  store.Outward frame other ∧
    ∀ owner, store.find? frame name = some owner → store.Outward other owner

/-- A name is found in the first frame of the chain that binds it. -/
theorem Chain.find?_eq_some_iff (h : store.Chain frame chain) (hstore : store.WellFormed) :
    store.find? frame name = some owner ↔
      ∃ nearer further, chain = nearer ++ owner :: further ∧
        (∀ f ∈ nearer, store.get? f name = none) ∧ (store.get? owner name).isSome := by
  rw [h.find?_eq hstore, List.find?_eq_some_iff_append]
  constructor
  · rintro ⟨hbound, nearer, further, hchain, hfree⟩
    exact ⟨nearer, further, hchain, fun f hmem => by simpa using hfree f hmem, hbound⟩
  · rintro ⟨nearer, further, hchain, hfree, hbound⟩
    exact ⟨hbound, nearer, further, hchain, fun f hmem => by simp [hfree f hmem]⟩

namespace WellFormed

variable (hstore : store.WellFormed)

include hstore

/-- A binding that is seen is the one that is found.  The induction is along the chain: no frame
in front of the other one binds the name, since it would be found there. -/
theorem find?_set_of_sees (hother : other < store.frames.size) (h : store.Sees frame name other)
    (value : Value) : (store.set other name value).find? frame name = some other := by
  obtain ⟨houtward, hfar⟩ := h
  induction houtward using Relation.ReflTransGen.head_induction_on with
  | refl =>
    rw [Store.find?_eq, get?_set_self hother]
    rfl
  | @head frame outer houter hrest ih =>
    have hlt : outer < frame := hstore.outer_lt houter
    have hle : other ≤ outer := hstore.le_of_outward hrest
    have hfree : store.get? frame name = none := by
      by_contra hbound
      have hfind : store.find? frame name = some frame := by
        rw [Store.find?_eq, if_pos (Option.isSome_iff_ne_none.mpr hbound)]
      have hback := hstore.le_of_outward (hfar frame hfind)
      omega
    have hsame : ∀ owner, store.find? outer name = some owner →
        store.find? frame name = some owner := by
      intro owner howner
      rw [hstore.find?_eq, hfree, houter]
      exact howner
    have hunbound : (store.set other name value).get? frame name = none := by
      rw [get?_set, if_neg (by omega), hfree]
    rw [Store.find?_eq, hunbound, outer?_set, houter]
    simp only [Option.isSome_none, Bool.false_eq_true, if_false, Option.bind_some, if_pos hlt]
    exact ih fun owner howner => hfar owner (hsame owner howner)

/-- A binding of another name, or one that is not seen, leaves the name where it was found. -/
theorem find?_set_of_not_sees (h : ¬ (given = name ∧ store.Sees frame name other))
    (value : Value) : (store.set other given value).find? frame name = store.find? frame name := by
  by_cases hname : given = name
  · subst hname
    induction frame using Nat.strongRecOn with
    | ind frame ih =>
      have hne : other ≠ frame := by
        rintro rfl
        refine h ⟨rfl, .refl, fun owner howner => ?_⟩
        exact (hstore.find?_eq_some_iff.mp howner).outward
      have hget : (store.set other given value).get? frame given = store.get? frame given := by
        rw [get?_set, if_neg (fun hsame => hne hsame.1)]
      rw [Store.find?_eq, Store.find?_eq store, hget, outer?_set]
      cases hbound : store.get? frame given with
      | some found => rfl
      | none =>
        cases houter : store.outer? frame with
        | none => rfl
        | some outer =>
          have hlt : outer < frame := hstore.outer_lt houter
          have hsame : store.find? frame given = store.find? outer given := by
            rw [hstore.find?_eq, hbound, houter]
            rfl
          have hunseen : ¬ (given = given ∧ store.Sees outer given other) := by
            rintro ⟨-, houtward, hfar⟩
            refine h ⟨rfl, .head houter houtward, fun owner howner => ?_⟩
            exact hfar owner (hsame.symm.trans howner)
          simp only [Option.isSome_none, Bool.false_eq_true, if_false, Option.bind_some, if_pos hlt]
          exact ih outer hlt hunseen
  · refine find?_congr (fun _ => outer?_set ..) (fun f => ?_) frame
    rw [get?_set, if_neg (fun hsame => hname hsame.2.1)]

theorem lookup?_set_of_sees (hother : other < store.frames.size)
    (h : store.Sees frame name other) (value : Value) :
    (store.set other name value).lookup? frame name = some value := by
  simp only [lookup?, hstore.find?_set_of_sees hother h value, get?_set_self hother]

theorem lookup?_set_of_not_sees (h : ¬ (given = name ∧ store.Sees frame name other))
    (value : Value) :
    (store.set other given value).lookup? frame name = store.lookup? frame name := by
  simp only [lookup?, hstore.find?_set_of_not_sees h value]
  cases hfind : store.find? frame name with
  | none => rfl
  | some owner =>
    have hunchanged : ¬ (other = owner ∧ given = name ∧ owner < store.frames.size) := by
      rintro ⟨rfl, rfl, -⟩
      refine h ⟨rfl, (hstore.find?_eq_some_iff.mp hfind).outward, fun owner howner => ?_⟩
      cases hfind.symm.trans howner
      exact .refl
    simp only
    rw [get?_set, if_neg hunchanged]

/-- The name is in the list of the frame exactly if it is found, and exactly then it has a value:
the one that it is bound to in the first frame of the chain that binds it.  Otherwise looking it up
fails, with the span that was given.  A new binding in any frame is what is found, and its value
what is looked up, if it is one of this name and is seen from the frame.  Otherwise the name is
found where it was, with the value or the fault that it had. -/
theorem names_agree (frame : Nat) (name : String) :
    ∃ chain, store.Chain frame chain ∧
      (∀ owner, store.find? frame name = some owner ↔
        ∃ nearer further, chain = nearer ++ owner :: further ∧
          (∀ f ∈ nearer, store.get? f name = none) ∧ (store.get? owner name).isSome) ∧
      (name ∈ store.visible frame ↔ ∃ owner, store.find? frame name = some owner) ∧
      (∀ owner, store.find? frame name = some owner → ∃ value,
        store.get? owner name = some value ∧
          ∀ span, Eval.symbolValue frame name span store = some (.ok value, store)) ∧
      (store.find? frame name = none → ∀ span,
        Eval.symbolValue frame name span store =
          some (.error ⟨.unboundName name, span⟩, store)) ∧
      ∀ other < store.frames.size, ∀ given value,
        (given = name ∧ store.Sees frame name other →
          (store.set other given value).find? frame name = some other ∧
          ∀ span, Eval.symbolValue frame name span (store.set other given value) =
            some (.ok value, store.set other given value)) ∧
        (¬ (given = name ∧ store.Sees frame name other) →
          (store.set other given value).find? frame name = store.find? frame name ∧
          ∀ span result, Eval.symbolValue frame name span store = some (result, store) →
            Eval.symbolValue frame name span (store.set other given value) =
              some (result, store.set other given value)) := by
  obtain ⟨chain, hchain⟩ := hstore.exists_chain frame
  refine ⟨chain, hchain, fun owner => hchain.find?_eq_some_iff hstore,
    hstore.mem_visible_iff_find?, fun owner howner => ?_, fun hnone span => ?_,
    fun other hother given value => ⟨?_, fun hunseen => ?_⟩⟩
  · obtain ⟨value, hvalue⟩ := Option.isSome_iff_exists.mp (isSome_get?_of_find? howner)
    refine ⟨value, hvalue, fun span => ?_⟩
    simp only [Eval.symbolValue_apply, lookup?, howner, hvalue]
  · simp only [Eval.symbolValue_apply, lookup?, hnone]
  · rintro ⟨rfl, hsees⟩
    refine ⟨hstore.find?_set_of_sees hother hsees value, fun span => ?_⟩
    rw [Eval.symbolValue_apply, hstore.lookup?_set_of_sees hother hsees value]
  · refine ⟨hstore.find?_set_of_not_sees hunseen value, fun span result hresult => ?_⟩
    rw [Eval.symbolValue_apply] at hresult ⊢
    rw [hstore.lookup?_set_of_not_sees hunseen value]
    simp only [Option.some.injEq, Prod.mk.injEq, and_true] at hresult ⊢
    exact hresult

end WellFormed

/-- A frame that binds `f` and `x`, and in it one that binds `f` to another value. -/
def shadowing : Store :=
  (((empty.addRoot.set 0 "f" (.number 1)).set 0 "x" (.number 2)).enclose 0).set 1 "f" (.number 3)

theorem wellFormed_shadowing : shadowing.WellFormed := by
  have hroot : (empty.addRoot).WellFormed :=
    WellFormed.empty.push (fun outer houter => by cases houter)
      (ForClosures.empty.push (by simp [Bindings.get?]))
  have hf : (empty.addRoot.set 0 "f" (.number 1)).WellFormed := hroot.set 0 "f" trivial
  have hbound : ((empty.addRoot.set 0 "f" (.number 1)).set 0 "x" (.number 2)).WellFormed :=
    hf.set 0 "x" trivial
  have hinner := @WellFormed.enter _ hbound 0 [] [] (by decide) (by simp)
  exact hinner.set 1 "f" trivial

/-- From the inner frame a new `f` in the outer one is not seen, and a new `x` there is. -/
theorem names_agree_shadowing :
    shadowing.WellFormed ∧ shadowing.find? 1 "f" = some 1 ∧ shadowing.find? 1 "x" = some 0 ∧
      (¬ shadowing.Sees 1 "f" 0 ∧
        (shadowing.set 0 "f" (.number 4)).find? 1 "f" = shadowing.find? 1 "f") ∧
      shadowing.Sees 1 "x" 0 ∧ ∀ span,
        Eval.symbolValue 1 "x" span (shadowing.set 0 "x" (.number 4)) =
          some (.ok (.number 4), shadowing.set 0 "x" (.number 4)) := by
  have hstore := wellFormed_shadowing
  have hf : shadowing.find? 1 "f" = some 1 := by with_unfolding_all rfl
  have hx : shadowing.find? 1 "x" = some 0 := by with_unfolding_all rfl
  have hhidden : ¬ shadowing.Sees 1 "f" 0 := by
    rintro ⟨-, hfar⟩
    exact absurd (hstore.le_of_outward (hfar 1 hf)) (by decide)
  have hseen : shadowing.Sees 1 "x" 0 := by
    refine ⟨.single rfl, fun owner howner => ?_⟩
    cases hx.symm.trans howner
    exact .refl
  obtain ⟨-, -, -, -, -, -, hsetf⟩ := hstore.names_agree 1 "f"
  obtain ⟨-, -, -, -, -, -, hsetx⟩ := hstore.names_agree 1 "x"
  have hroot : 0 < shadowing.frames.size := by decide
  have hkept := (hsetf 0 hroot "f" (.number 4)).2 fun hsees => hhidden hsees.2
  have hnew := (hsetx 0 hroot "x" (.number 4)).1 ⟨rfl, hseen⟩
  exact ⟨hstore, hf, hx, ⟨hhidden, hkept.1⟩, hseen, hnew.2⟩

end TinyLisp.Store
