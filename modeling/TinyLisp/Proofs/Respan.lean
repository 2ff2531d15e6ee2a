import Mathlib.Data.Nat.Basic
import TinyLisp.Proofs.Simulation

/-!
# Spans do not steer evaluation

The evaluator passes spans on and never looks at them.  So if other spans are put in the
place of those of a node and of a store, then every evaluation gives the same answer with
the other spans in it, at the same depth.

* New spans for values, frames and stores, with one lemma for each operation of the library.
* `Evaluation.Respans`: one evaluation answers as another does, up to new spans.
* `respanning`: the run with new spans as a simulation of the run it comes from.
* `eval_respan`, and `evalForms_respan` for the forms of a source text.
-/

namespace TinyLisp

variable {g f : Span → Span}

/-! ## Values and stores -/

/-- The procedure with `g` applied to each span in it. -/
def Procedure.respan (g : Span → Span) : Procedure → Procedure
  | .builtin b => .builtin b
  | .closure c => .closure { c with body := c.body.respan g }

namespace Value

/-- The value with `g` applied to each span in it. -/
def respan (g : Span → Span) : Value → Value
  | number x => .number x
  | procedure p => .procedure (p.respan g)

@[simp] theorem render_respan (value : Value) : (value.respan g).render = value.render := by
  cases value with
  | number => rfl
  | procedure p => cases p <;> simp [respan, Procedure.respan, render, Procedure.render,
      Closure.render]

theorem respan_respan (value : Value) : (value.respan f).respan g = value.respan (g ∘ f) := by
  cases value with
  | number => rfl
  | procedure p => cases p <;> simp [respan, Procedure.respan, Node.respan_respan]

theorem respan_id (value : Value) : value.respan id = value := by
  cases value with
  | number => rfl
  | procedure p => cases p <;> simp [respan, Procedure.respan, Node.respan_id]

end Value

namespace Bindings

/-- The bindings with `g` applied to each span in their values. -/
def respan (g : Span → Span) (bindings : Bindings) : Bindings :=
  bindings.map fun (name, value) => (name, value.respan g)

theorem get?_respan (bindings : Bindings) (name : String) :
    (bindings.respan g).get? name = (bindings.get? name).map (Value.respan g) := by
  induction bindings with
  | nil => rfl
  | cons pair rest ih =>
    simp only [respan, List.map_cons, get?] at ih ⊢
    split
    · rfl
    · exact ih

theorem set_respan (bindings : Bindings) (name : String) (value : Value) :
    (bindings.set name value).respan g = (bindings.respan g).set name (value.respan g) := by
  induction bindings with
  | nil => rfl
  | cons pair rest ih =>
    simp only [respan, List.map_cons, set] at ih ⊢
    split
    · rfl
    · rw [List.map_cons, ih]

theorem ofPairs_respan (pairs : List (String × Value)) :
    (ofPairs pairs).respan g = ofPairs (pairs.map fun (name, value) => (name, value.respan g)) := by
  induction pairs using List.reverseRecOn with
  | nil => rfl
  | append_singleton pairs pair ih =>
    rw [ofPairs_append_singleton, set_respan, ih, List.map_append, List.map_singleton,
      ofPairs_append_singleton]

end Bindings

namespace Frame

/-- The frame with `g` applied to each span in its values. -/
def respan (g : Span → Span) (frame : Frame) : Frame :=
  { frame with bindings := frame.bindings.respan g }

theorem respan_respan (frame : Frame) : (frame.respan f).respan g = frame.respan (g ∘ f) := by
  simp [respan, Bindings.respan, Function.comp_def, Value.respan_respan]

theorem respan_id (frame : Frame) : frame.respan id = frame := by
  simp [respan, Bindings.respan, Value.respan_id]

end Frame

namespace Store

/-- The store with `g` applied to each span in its values. -/
def respan (g : Span → Span) (store : Store) : Store :=
  { store with frames := store.frames.map (Frame.respan g) }

variable (store : Store)

@[simp] theorem nextFrame_respan : (store.respan g).nextFrame = store.nextFrame := by
  simp [respan, nextFrame]

theorem getElem?_respan (frame : Nat) :
    (store.respan g).frames[frame]? = store.frames[frame]?.map (Frame.respan g) := by
  simp [respan]

theorem get?_respan (frame : Nat) (name : String) :
    (store.respan g).get? frame name = (store.get? frame name).map (Value.respan g) := by
  simp only [get?, getElem?_respan]
  cases store.frames[frame]? with
  | none => rfl
  | some found => exact found.bindings.get?_respan name

theorem set_respan (frame : Nat) (name : String) (value : Value) :
    (store.set frame name value).respan g =
      (store.respan g).set frame name (value.respan g) := by
  simp only [respan, set, Store.mk.injEq, and_true]
  apply Array.ext_getElem?
  intro i
  simp only [Array.getElem?_map, Array.getElem?_modify]
  split
  · cases store.frames[i]? with
    | none => rfl
    | some found => simp [Frame.respan, Bindings.set_respan]
  · rfl

theorem push_respan (frame : Frame) :
    (store.push frame).respan g = (store.respan g).push (frame.respan g) := by
  simp [respan, push]

theorem find?_respan (frame : Nat) (name : String) :
    (store.respan g).find? frame name = store.find? frame name := by
  fun_induction store.find? frame name with
  | case1 frame hframe =>
    rw [find?, getElem?_respan, hframe]
    rfl
  | case2 frame outer bindings hframe value hvalue =>
    rw [find?, getElem?_respan, hframe]
    simp [Frame.respan, Bindings.get?_respan, hvalue]
  | case3 frame bindings hvalue hframe =>
    rw [find?, getElem?_respan, hframe]
    simp [Frame.respan, Bindings.get?_respan, hvalue]
  | case4 frame bindings hvalue outer hlt hframe ih =>
    rw [find?, getElem?_respan, hframe]
    simp [Frame.respan, Bindings.get?_respan, hvalue, hlt, ih]
  | case5 frame bindings hvalue outer hlt hframe =>
    rw [find?, getElem?_respan, hframe]
    simp [Frame.respan, Bindings.get?_respan, hvalue, hlt]

theorem forClosures_respan_iff {P : Closure → Prop} :
    (store.respan g).ForClosures P ↔
      store.ForClosures fun closure => P { closure with body := closure.body.respan g } := by
  constructor
  · intro h frame name value hvalue
    have hnew := h frame name (value.respan g) (by rw [get?_respan, hvalue]; rfl)
    cases value with
    | number => trivial
    | procedure p => cases p <;> exact hnew
  · intro h frame name value hvalue
    rw [get?_respan, Option.map_eq_some_iff] at hvalue
    obtain ⟨old, hold, rfl⟩ := hvalue
    have hnew := h frame name old hold
    cases old with
    | number => trivial
    | procedure p => cases p <;> exact hnew

theorem WellFormed.respan {store : Store} (h : store.WellFormed) :
    (store.respan g).WellFormed where
  outer_lt := by
    intro frame outer houter
    rw [outer?, getElem?_respan, Option.bind_map] at houter
    exact h.outer_lt houter
  within := by
    rw [forClosures_respan_iff]
    simpa [Store.respan] using h.within

theorem respan_respan : (store.respan f).respan g = store.respan (g ∘ f) := by
  simp [respan, Function.comp_def, Frame.respan_respan]

theorem respan_id : store.respan id = store := by
  have hid : Frame.respan id = id := funext Frame.respan_id
  rw [respan, hid, Array.map_id]

end Store

/-! ## Evaluations -/

/-- The error with `g` applied to its span. -/
def EvalError.respan (g : Span → Span) (error : EvalError) : EvalError :=
  { error with span := g error.span }

namespace Evaluation

variable {α β γ δ : Type}

/-- The answer of an evaluation with `g` applied to each span in it, where `h` does so for its
value. -/
def respanAnswer (g : Span → Span) (h : α → β) :
    Except EvalError α × Store → Except EvalError β × Store :=
  fun (result, after) => ((result.mapError (EvalError.respan g)).map h, after.respan g)

/-- On a store with new spans the second evaluation answers as the first does on the store
itself, up to the new spans. -/
def Respans (g : Span → Span) (h : α → β) (first : Evaluation α) (second : Evaluation β) : Prop :=
  ∀ store, second (store.respan g) = (first store).map (respanAnswer g h)

end Evaluation

open Evaluation

/-! ## Two runs that differ in spans -/

section Related

variable {v w : Value} {vs ws : List Value}

/-- The second closure is the first one with other spans. -/
def Closure.Respanned (g : Span → Span) (c d : Closure) : Prop :=
  d = { c with body := c.body.respan g }

theorem Value.related_respan_iff : v.Related (Closure.Respanned g) w ↔ w = v.respan g := by
  constructor
  · intro h
    cases h with
    | number => rfl
    | procedure h =>
      cases h with
      | builtin => rfl
      | closure h =>
        cases h
        rfl
  · rintro rfl
    cases v with
    | number => exact .number
    | procedure p =>
      cases p with
      | builtin => exact .procedure .builtin
      | closure => exact .procedure (.closure rfl)

theorem Value.rel_map_respan (found : Option Value) :
    Option.Rel (Value.Related (Closure.Respanned g)) found (found.map (Value.respan g)) := by
  cases found with
  | none => exact .none
  | some => exact .some (related_respan_iff.mpr rfl)

theorem Value.eq_map_respan (h : List.Forall₂ (Value.Related (Closure.Respanned g)) vs ws) :
    ws = vs.map (Value.respan g) := by
  induction h with
  | nil => rfl
  | cons hvalue _ ih => rw [List.map_cons, related_respan_iff.mp hvalue, ih]

end Related

/-- The second run has other spans than the first, in its nodes and in its store.  Frames keep their
places, so it is the same in every world. -/
def respanning (g : Span → Span) : Simulation Nat where
  Stores _ S T := T = S.respan g
  Closures _ := Closure.Respanned g
  Names _ f a h b := f = h ∧ a = b
  Nodes _ f n h m := f = h ∧ m = n.respan g
  Lambdas _ f names body h others code := f = h ∧ names = others ∧ code = body.respan g
  Spans span place := place = g span
  Errors error other := other = error.respan g
  closures_mono _ h := h
  names_mono _ h := h
  nodes_mono _ h := h
  errors_same _ h := by rw [h]; rfl
  errors_unbound hspan h := by rw [hspan, h.2]; rfl
  nodes_matches := by
    rintro _ f n _ _ ⟨rfl, rfl⟩
    refine Node.matches_respan (fun _ => rfl) (fun _ => ?_) (fun _ => ?_) (fun _ _ => ?_)
      (fun _ _ => rfl) n
    · exact ⟨rfl, rfl⟩
    · exact ⟨rfl, rfl⟩
    · exact ⟨rfl, rfl, rfl⟩
  length_eq h := by rw [h]
  find? := by
    rintro _ S _ f a _ _ rfl ⟨rfl, rfl⟩
    rw [Store.find?_respan]
    cases S.find? f a with
    | none => exact .none
    | some => exact .some ⟨rfl, rfl⟩
  get? := by
    rintro _ S _ f a _ _ rfl ⟨rfl, rfl⟩
    rw [Store.get?_respan]
    exact Value.rel_map_respan _
  set := by
    rintro _ S _ f a _ _ x y rfl ⟨rfl, rfl⟩ hvalue
    rw [Value.related_respan_iff.mp hvalue, Store.set_respan]
  made := by
    rintro _ S _ f names body _ _ _ rfl ⟨rfl, rfl, rfl⟩
    rfl
  count h := by rw [h]; rfl
  enter := by
    rintro _ S _ c d xs ys rfl rfl hvalues -
    refine ⟨_, le_rfl, ?_, ?_, rfl⟩
    · rw [Store.push_respan, Frame.respan, Bindings.ofPairs_respan,
        Value.eq_map_respan hvalues, List.zip_map_right]
      rfl
    · exact (Store.nextFrame_respan S).symm

/-- Runs that are related answer alike, up to the new spans. -/
theorem respans_of_relates {α β : Type} {R : Nat → α → β → Prop} {h : α → β}
    {first : Evaluation α} {second : Evaluation β} (hR : ∀ w a b, R w a b → b = h a)
    (hrelates : (respanning g).Relates 0 R first second) : Respans g h first second := by
  intro store
  have hanswers := hrelates store (store.respan g) rfl
  match first store, second (store.respan g), hanswers with
  | none, none, .none => rfl
  | some _, some _, .some (.error _ hstores herror) =>
    cases hstores
    cases herror
    rfl
  | some _, some _, .some (.value _ hstores hvalue) =>
    cases hstores
    cases hR _ _ _ hvalue
    rfl

/-- New spans for a node and a store give an evaluation the same answer with new spans. -/
theorem eval_respan (depth frame : Nat) (node : Node) :
    Respans g (Value.respan g) (eval depth frame node) (eval depth frame (node.respan g)) :=
  respans_of_relates (fun _ _ _ => Value.related_respan_iff.mp)
    (Simulation.eval_relates depth ⟨rfl, rfl⟩)

theorem evalForms_respan (depth frame : Nat) (last : Option Value) (forms : List Node) :
    Respans g (Option.map (Value.respan g)) (evalForms depth frame last forms)
      (evalForms depth frame (last.map (Value.respan g)) (forms.map (Node.respan g))) := by
  have hforms : List.Forall₂ (fun n m => (respanning g).Nodes 0 frame n frame m) forms
      (forms.map (Node.respan g)) :=
    List.forall₂_map_right_iff.mpr (List.forall₂_same.mpr fun _ _ => ⟨rfl, rfl⟩)
  have hlast : Option.Rel ((respanning g).Values 0) last (last.map (Value.respan g)) :=
    Value.rel_map_respan last
  refine respans_of_relates (fun _ a b hrel => ?_)
    (Simulation.evalForms_relates depth hlast hforms)
  match a, b, hrel with
  | none, none, .none => rfl
  | some v, some w, .some hvalue => rw [Value.related_respan_iff.mp hvalue, Option.map_some]

end TinyLisp
