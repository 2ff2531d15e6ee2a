import Mathlib.Logic.Function.Basic
import TinyLisp.Proofs.Chains
import TinyLisp.Proofs.Encapsulation

/-!
# New names for parameters

A parameter of a closure can be given another name.  If the new name occurs neither among the
parameters nor in the body, then a call of the renamed closure is the call of the closure with the
new name in it, whatever the two names mean in the frames around.

The frame of the call, and every frame from which the way outward leads there, is inside: there the
new name stands for the old one, also in the closures that are made there.  All other frames and
closures stay what they are.  The new name is not in use inside.  The old one is bound in the frame
of the call, so that looking it up does not lead out of there.

* `replaced`: the new name for the old one, `Node.Lacks` and `Closure.rename`.
* `Region`: the frames so far, and which of them are inside, with `Region.Names`, `Region.Nodes`,
  `Region.Closures` and `Region.Stores` for what corresponds in a run with the old name and one with
  the new name.
* `Region.simulation`: the two runs side by side.
* `RenamedAnswer`: how their answers correspond, without regard to regions, and
  `Store.WellFormed.apply_rename`: the calls of a closure with the old and with the new name.
-/

namespace TinyLisp

/-! ## New names -/

/-- The name with `y` in the place of `x`. -/
def replaced (x y name : String) : String :=
  if name = x then y else name

/-- Inside, `y` is in the place of `x`, and other names stay what they are. -/
def replacedIf (inside : Bool) (x y : String) : String → String :=
  if inside then replaced x y else id

section Names

variable {x y a b : String} {inside : Bool}

theorem replaced_of_ne (h : a ≠ x) : replaced x y a = a :=
  if_neg h

/-- Names other than the new one do not become the same. -/
theorem replacedIf_inj (ha : inside → a ≠ y) (hb : inside → b ≠ y) :
    replacedIf inside x y a = replacedIf inside x y b ↔ a = b := by
  cases inside with
  | false => exact Iff.rfl
  | true =>
    have hold : a ≠ y := ha rfl
    have hother : b ≠ y := hb rfl
    simp only [replacedIf, replaced, if_true]
    grind

theorem ofName?_replacedIf (hx : Keyword.ofName? x = none) (hy : Keyword.ofName? y = none)
    (name : String) : Keyword.ofName? (replacedIf inside x y name) = Keyword.ofName? name := by
  cases inside with
  | false => rfl
  | true =>
    simp only [replacedIf, replaced, if_true]
    split
    · rename_i heq
      rw [heq, hx, hy]
    · rfl

end Names

/-- The name does not occur in the node. -/
def Node.Lacks (name : String) (node : Node) : Prop :=
  ∀ span, ¬ (symbol name span).Part node

namespace Node

variable {name other : String} {span : Span}

@[simp] theorem lacks_number (value : Float) : (number value span).Lacks name := by
  rintro place ⟨⟩

@[simp] theorem lacks_symbol_iff : (symbol other span).Lacks name ↔ other ≠ name := by
  constructor
  · rintro h rfl
    exact h span .self
  · rintro hne place ⟨⟩
    exact hne rfl

@[simp] theorem lacks_list_iff {children : List Node} :
    (list children span).Lacks name ↔ ∀ child ∈ children, child.Lacks name := by
  constructor
  · exact fun h child hmem place hpart => h place (.child hmem hpart)
  · intro h place hpart
    cases hpart with
    | child hmem hpart => exact h _ hmem place hpart

/-- A name that does not occur in a parameter list is no parameter. -/
theorem Lacks.not_mem_parameters {ns : List Node} {names : List String}
    (h : (list ns span).Lacks name) (hparameters : Eval.parameters ns = .ok names) :
    name ∉ names := by
  intro hmem
  rw [Eval.parameters_eq_ok_iff] at hparameters
  have hname : some name ∈ ns.map name? := hparameters ▸ List.mem_map_of_mem hmem
  obtain ⟨node, hnode, heq⟩ := List.mem_map.mp hname
  cases node with
  | number | list => simp [name?] at heq
  | symbol other place =>
    simp only [name?, Option.some.injEq] at heq
    exact lacks_symbol_iff.mp (lacks_list_iff.mp h _ hnode) heq

end Node

/-- The closure with `r` applied to each name in it. -/
def Closure.rename (r : String → String) (closure : Closure) : Closure :=
  { closure with parameters := closure.parameters.map r, body := closure.body.rename r }

@[simp] theorem Closure.rename_id (closure : Closure) : closure.rename id = closure := by
  simp [rename]

/-- The fault shows names as they are, or with new names. -/
inductive Fault.Renamed (r : String → String) : Fault → Fault → Prop where
  | same {fault : Fault} : Renamed r fault fault
  | unboundName {name : String} : Renamed r (.unboundName name) (.unboundName (r name))
  | malformed {keyword : Keyword} {complaint objection : Complaint}
      (h : complaint.Renamed r objection) :
      Renamed r (.malformed keyword complaint) (.malformed keyword objection)

theorem Fault.Renamed.eq {fault other : Fault} (h : fault.Renamed id other) : other = fault := by
  cases h with
  | same | unboundName => rfl
  | malformed h => rw [h.eq]

/-- Whichever side the names are on, they are new ones or stay what they are. -/
theorem Fault.Renamed.of_replacedIf {inside : Bool} {x y : String} {fault other : Fault}
    (h : fault.Renamed (replacedIf inside x y) other) : fault.Renamed (replaced x y) other := by
  cases inside with
  | true => exact h
  | false =>
    obtain rfl : other = fault := Fault.Renamed.eq h
    exact .same

/-- The same span, and the same fault up to new names. -/
structure EvalError.Renamed (r : String → String) (error other : EvalError) : Prop where
  span : other.span = error.span
  fault : error.fault.Renamed r other.fault

/-! ## Inside and outside -/

/-- The frames that there are so far, by their number, and which of them are inside. -/
structure Region where
  count : Nat
  inner : Nat → Bool

namespace Region

instance : Preorder Region where
  le w v := w.count ≤ v.count ∧ ∀ f < w.count, v.inner f = w.inner f
  le_refl _ := ⟨Nat.le_refl _, fun _ _ => rfl⟩
  le_trans _ _ _ h h' := ⟨Nat.le_trans h.1 h'.1, fun f hlt => by
    rw [h'.2 f (Nat.lt_of_lt_of_le hlt h.1), h.2 f hlt]⟩

/-- One more frame. -/
def enter (w : Region) (inside : Bool) : Region :=
  ⟨w.count + 1, Function.update w.inner w.count inside⟩

/-- What becomes of the names of a frame. -/
def rename (w : Region) (x y : String) (frame : Nat) : String → String :=
  replacedIf (w.inner frame) x y

/-- A name in a frame of both runs.  It is not the new one if the frame is inside. -/
structure Names (w : Region) (x y : String) (f : Nat) (a : String) (g : Nat) (b : String) :
    Prop where
  frame_eq : g = f
  lt : f < w.count
  name_eq : b = w.rename x y f a
  fresh : w.inner f → a ≠ y

/-- A node in a frame of both runs. -/
structure Nodes (w : Region) (x y : String) (f : Nat) (n : Node) (g : Nat) (m : Node) : Prop where
  frame_eq : g = f
  lt : f < w.count
  node_eq : m = n.rename (w.rename x y f)
  fresh : w.inner f → n.Lacks y

/-- A closure over a frame of both runs. -/
structure Closures (w : Region) (x y : String) (c d : Closure) : Prop where
  lt : c.frame < w.count
  eq : d = c.rename (w.rename x y c.frame)
  fresh : w.inner c.frame → y ∉ c.parameters ∧ c.body.Lacks y

/-- The stores of both runs.  Inside are the frame of the call and the frames enclosed by one that
is inside. -/
structure Stores (w : Region) (x y : String) (call : Nat) (S T : Store) : Prop where
  size_left : S.frames.size = w.count
  size_right : T.frames.size = w.count
  closures : T.closures = S.closures
  outer? : ∀ f, T.outer? f = S.outer? f
  outer_lt : ∀ {f outer}, S.outer? f = some outer → outer < f
  inner_iff : ∀ f < w.count, w.inner f ↔ f = call ∨ ∃ outer, S.outer? f = some outer ∧ w.inner outer
  get? : ∀ f a, (w.inner f → a ≠ y) →
    Option.Rel (Value.Related (w.Closures x y)) (S.get? f a) (T.get? f (w.rename x y f a))

variable {w v : Region} {x y a b : String} {f g call outer : Nat} {S T : Store} {inside : Bool}

theorem le_enter (w : Region) (inside : Bool) : w ≤ w.enter inside :=
  ⟨Nat.le_succ _, fun _ hlt => Function.update_of_ne (Nat.ne_of_lt hlt) ..⟩

@[simp] theorem inner_enter_count : (w.enter inside).inner w.count = inside :=
  Function.update_self ..

theorem inner_enter_of_ne (h : f ≠ w.count) : (w.enter inside).inner f = w.inner f :=
  Function.update_of_ne h ..

theorem rename_mono (hle : w ≤ v) (hlt : f < w.count) : v.rename x y f = w.rename x y f := by
  rw [rename, hle.2 f hlt, rename]

theorem Names.mono (hle : w ≤ v) (h : w.Names x y f a g b) : v.Names x y f a g b where
  frame_eq := h.frame_eq
  lt := Nat.lt_of_lt_of_le h.lt hle.1
  name_eq := by rw [rename_mono hle h.lt, h.name_eq]
  fresh := by
    rw [hle.2 f h.lt]
    exact h.fresh

theorem Nodes.mono (hle : w ≤ v) {n m : Node} (h : w.Nodes x y f n g m) : v.Nodes x y f n g m where
  frame_eq := h.frame_eq
  lt := Nat.lt_of_lt_of_le h.lt hle.1
  node_eq := by rw [rename_mono hle h.lt, h.node_eq]
  fresh := by
    rw [hle.2 f h.lt]
    exact h.fresh

theorem Closures.mono (hle : w ≤ v) {c d : Closure} (h : w.Closures x y c d) :
    v.Closures x y c d where
  lt := Nat.lt_of_lt_of_le h.lt hle.1
  eq := by rw [rename_mono hle h.lt, h.eq]
  fresh := by
    rw [hle.2 _ h.lt]
    exact h.fresh

theorem rel_mono (hle : w ≤ v) {p q : Option Value}
    (h : Option.Rel (Value.Related (w.Closures x y)) p q) :
    Option.Rel (Value.Related (v.Closures x y)) p q :=
  Option.rel_imp h fun _ _ hvalue => hvalue.mono fun _ _ hclosure => hclosure.mono hle

namespace Stores

variable (h : w.Stores x y call S T)

include h

theorem inner_of_outer (hlt : f < w.count) (houter : S.outer? f = some outer)
    (hinner : w.inner outer) : w.inner f :=
  (h.inner_iff f hlt).mpr (.inr ⟨outer, houter, hinner⟩)

/-- The way out leads through the frame of the call. -/
theorem eq_call (hlt : f < w.count) (houter : S.outer? f = some outer) (hinner : w.inner f)
    (hnext : ¬ w.inner outer) : f = call := by
  rcases (h.inner_iff f hlt).mp hinner with hcall | ⟨other, hother, hsame⟩
  · exact hcall
  · cases houter.symm.trans hother
    exact absurd hsame hnext

/-- A name that a frame does not bind goes on to correspond in the frame that encloses it.  On the
way out it is not the old name, because the frame of the call binds that one. -/
theorem names_outer (hbound : (S.get? call x).isSome) (hname : w.Names x y f a f b)
    (hfree : S.get? f a = none) (houter : S.outer? f = some outer) :
    w.Names x y outer a outer b where
  frame_eq := rfl
  lt := Nat.lt_trans (h.outer_lt houter) hname.lt
  fresh hinner := hname.fresh (h.inner_of_outer hname.lt houter hinner)
  name_eq := by
    rw [hname.name_eq, rename, rename]
    by_cases hnext : w.inner outer
    · rw [hnext, h.inner_of_outer hname.lt houter hnext]
    · by_cases hinner : w.inner f
      · have hne : a ≠ x := by
          rintro rfl
          simp [← h.eq_call hname.lt houter hinner hnext, hfree] at hbound
        rw [hinner, Bool.eq_false_iff.mpr hnext]
        exact replaced_of_ne hne
      · rw [Bool.eq_false_iff.mpr hinner, Bool.eq_false_iff.mpr hnext]

theorem find? (hbound : (S.get? call x).isSome) (hname : w.Names x y f a g b) :
    Option.Rel (fun owner other => w.Names x y owner a other b) (S.find? f a) (T.find? g b) := by
  obtain rfl := hname.frame_eq
  -- By induction on the frame, because the way outward leads to earlier ones.
  induction g using Nat.strongRecOn with
  | ind f ih =>
    have hget := h.get? f a hname.fresh
    rw [← hname.name_eq] at hget
    rw [S.find?_eq, T.find?_eq, h.outer?]
    match hx : S.get? f a, T.get? f b, hget with
    | some _, some _, .some _ => exact .some hname
    | none, none, .none =>
      cases houter : S.outer? f with
      | none => exact .none
      | some outer =>
        simp only [Option.isSome_none, Bool.false_eq_true, if_false, Option.bind_some,
          if_pos (h.outer_lt houter)]
        exact ih outer (h.outer_lt houter) (h.names_outer hbound hname hx houter)

theorem set (hname : w.Names x y f a g b) {u v : Value}
    (hvalue : u.Related (w.Closures x y) v) :
    w.Stores x y call (S.set f a u) (T.set g b v) where
  size_left := by rw [Store.size_set, h.size_left]
  size_right := by rw [Store.size_set, h.size_right]
  closures := h.closures
  outer? other := by rw [Store.outer?_set, Store.outer?_set, h.outer?]
  outer_lt houter := h.outer_lt (by simpa using houter)
  inner_iff := by simpa using h.inner_iff
  get? := by
    intro other wanted hfresh
    -- New names are as different as the names, so the runs bind this one both or neither.
    have hboth : (g = other ∧ b = w.rename x y other wanted ∧ other < T.frames.size) ↔
        (f = other ∧ a = wanted ∧ other < S.frames.size) := by
      rw [hname.frame_eq, hname.name_eq, h.size_left, h.size_right]
      refine and_congr_right fun heq => and_congr_left' ?_
      subst heq
      exact replacedIf_inj hname.fresh hfresh
    rw [Store.get?_set, Store.get?_set]
    simp only [hboth]
    split
    · exact .some hvalue
    · exact h.get? other wanted hfresh

theorem count : w.Stores x y call { S with closures := S.closures + 1 }
    { T with closures := T.closures + 1 } where
  size_left := h.size_left
  size_right := h.size_right
  closures := congrArg (· + 1) h.closures
  outer? := h.outer?
  outer_lt := h.outer_lt
  inner_iff := h.inner_iff
  get? := h.get?

/-- One more frame, which is inside if it is that of the call or the one around it is inside. -/
theorem push (houter : outer < w.count) (hinside : inside ↔ w.count = call ∨ w.inner outer)
    {bindings others : Bindings}
    (hbindings : bindings.RelatedAlong (w.Closures x y) (replacedIf inside x y)
      (fun a => inside → a ≠ y) others) :
    (w.enter inside).Stores x y call (S.push ⟨some outer, bindings⟩)
      (T.push ⟨some outer, others⟩) where
  size_left := by rw [Store.size_push, h.size_left]; rfl
  size_right := by rw [Store.size_push, h.size_right]; rfl
  closures := h.closures
  outer? f := by
    rw [Store.outer?_push, Store.outer?_push, Store.nextFrame, Store.nextFrame, h.size_left,
      h.size_right, h.outer?]
  outer_lt := by
    intro f other hother
    rw [Store.outer?_push, Store.nextFrame, h.size_left] at hother
    split at hother
    · cases hother
      rwa [‹f = w.count›]
    · exact h.outer_lt hother
  inner_iff := by
    intro f hlt
    rw [Store.outer?_push, Store.nextFrame, h.size_left]
    -- The new frame encloses none of the old ones, so for these nothing changes.
    by_cases hlast : f = w.count
    · rw [if_pos hlast, hlast, inner_enter_count, hinside]
      simp [inner_enter_of_ne (Nat.ne_of_lt houter)]
    · have hold : f < w.count := Nat.lt_of_le_of_ne (Nat.le_of_lt_succ hlt) hlast
      rw [if_neg hlast, inner_enter_of_ne hlast, h.inner_iff f hold]
      refine or_congr_right (exists_congr fun other => and_congr_right fun hother => ?_)
      rw [inner_enter_of_ne (Nat.ne_of_lt (Nat.lt_trans (h.outer_lt hother) hold))]
  get? := by
    intro f a hfresh
    rw [Store.get?_push, Store.get?_push, Store.nextFrame, Store.nextFrame, h.size_left,
      h.size_right]
    by_cases hlast : f = w.count
    · rw [if_pos hlast, if_pos hlast]
      simp only [hlast, rename, inner_enter_count] at hfresh ⊢
      exact rel_mono (le_enter w inside) (hbindings a hfresh)
    · rw [if_neg hlast, if_neg hlast]
      simp only [rename, inner_enter_of_ne hlast] at hfresh ⊢
      exact rel_mono (le_enter w inside) (h.get? f a hfresh)

/-- The frame of a call in both runs. -/
theorem enter (hinside : inside ↔ w.count = call ∨ w.inner outer) (houter : outer < w.count)
    {names : List String} (hnames : inside → y ∉ names) {us vs : List Value}
    (hvalues : List.Forall₂ (Value.Related (w.Closures x y)) us vs) :
    (w.enter inside).Stores x y call (S.push ⟨some outer, Bindings.ofPairs (names.zip us)⟩)
      (T.push ⟨some outer, Bindings.ofPairs ((names.map (replacedIf inside x y)).zip vs)⟩) := by
  refine h.push houter hinside ?_
  refine Bindings.relatedAlong_ofPairs (fun _ _ => replacedIf_inj) (fun name hmem hin => ?_) hvalues
  rintro rfl
  exact hnames hin hmem

/-- The body of the closure of a call, in the frame of the call. -/
theorem nodes_enter {body : Node} (hbody : inside → body.Lacks y) :
    (w.enter inside).Nodes x y S.nextFrame body T.nextFrame
      (body.rename (replacedIf inside x y)) := by
  rw [Store.nextFrame, Store.nextFrame, h.size_left, h.size_right]
  refine ⟨rfl, Nat.lt_succ_self _, ?_, ?_⟩
  · rw [rename, inner_enter_count]
  · rwa [inner_enter_count]

end Stores

/-- What is alike in the nodes of a frame. -/
def like (w : Region) (x y : String) (f g : Nat) : Node.Likeness where
  spans := Eq
  names a b := w.Names x y f a g b
  nodes n m := w.Nodes x y f n g m
  lambdas names body others code :=
    ∀ identity, w.Closures x y ⟨identity, names, body, f⟩ ⟨identity, others, code, g⟩
  errors := EvalError.Renamed (replaced x y)

theorem relabel_rename (node : Node) :
    node.relabel (w.rename x y f) id = node.rename (w.rename x y f) :=
  Node.respan_id

/-- The new names of a frame have no influence on what is alike in its nodes. -/
theorem keeps (hx : Keyword.ofName? x = none) (hy : Keyword.ofName? y = none)
    (hlt : f < w.count) :
    (w.like x y f f).Keeps (fun node => w.inner f → node.Lacks y) (w.rename x y f) id where
  keys := ofName?_replacedIf hx hy
  head hclass _ hinside := Node.lacks_list_iff.mp (hclass hinside) _ List.mem_cons_self
  operands hclass _ hmem hinside :=
    Node.lacks_list_iff.mp (hclass hinside) _ (List.mem_cons_of_mem _ hmem)
  spans _ := rfl
  names hclass := ⟨rfl, hlt, rfl, fun hinside => Node.lacks_symbol_iff.mp (hclass hinside)⟩
  nodes hclass := ⟨rfl, hlt, relabel_rename _, hclass⟩
  lambdas hlist hbody hparameters _ := by
    rw [relabel_rename]
    exact ⟨hlt, rfl, fun hin => ⟨(hlist hin).not_mem_parameters hparameters, hbody hin⟩⟩
  errors hrenamed := ⟨rfl, .of_replacedIf (.malformed hrenamed)⟩

theorem Nodes.matches (hx : Keyword.ofName? x = none) (hy : Keyword.ofName? y = none) {n m : Node}
    (h : w.Nodes x y f n g m) : Node.Matches (w.like x y f g) n m := by
  obtain ⟨rfl, hlt, rfl, hfresh⟩ := h
  have hmatches := (keeps hx hy hlt).matches_relabel hfresh
  rwa [relabel_rename] at hmatches

theorem Names.errors_unbound (h : w.Names x y f a g b) {span place : Span} (hspan : span = place) :
    EvalError.Renamed (replaced x y) ⟨.unboundName a, span⟩ ⟨.unboundName b, place⟩ := by
  rw [h.name_eq]
  exact ⟨hspan.symm, .of_replacedIf .unboundName⟩

/-- Two runs of which one has the name `y` for `x` in the frames that are inside.  The frame of the
call binds the name. -/
def simulation (hx : Keyword.ofName? x = none) (hy : Keyword.ofName? y = none) (call : Nat) :
    Simulation Region where
  Stores w S T := w.Stores x y call S T ∧ (S.get? call x).isSome
  Closures w := w.Closures x y
  Names w := w.Names x y
  Nodes w := w.Nodes x y
  Lambdas w f names body g others code := (w.like x y f g).lambdas names body others code
  Spans := Eq
  Errors := EvalError.Renamed (replaced x y)
  closures_mono hle h := h.mono hle
  names_mono hle h := h.mono hle
  nodes_mono hle h := h.mono hle
  errors_same _ hspan := ⟨hspan.symm, .same⟩
  errors_unbound hspan h := h.errors_unbound hspan
  nodes_matches h := h.matches hx hy
  length_eq h := by
    rw [h.eq]
    exact (List.length_map _).symm
  find? h hname := h.1.find? h.2 hname
  get? h hname := by
    obtain ⟨rfl, -, rfl, hfresh⟩ := hname
    exact h.1.get? _ _ hfresh
  set h hname hvalue := by
    refine ⟨h.1.set hname hvalue, ?_⟩
    rw [Store.get?_set]
    split
    · rfl
    · exact h.2
  made h hlambda := by
    rw [h.1.closures]
    exact hlambda _
  count h := ⟨h.1.count, h.2⟩
  enter := by
    rintro w S T c d us vs ⟨hstores, hbound⟩ hclosure hvalues -
    obtain ⟨hlt, rfl, hfresh⟩ := hclosure
    have hcall : call < S.nextFrame := by
      obtain ⟨value, hvalue⟩ := Option.isSome_iff_exists.mp hbound
      exact Store.lt_size_of_get? hvalue
    have hne : w.count ≠ call := hstores.size_left ▸ Nat.ne_of_gt hcall
    have hinside : w.inner c.frame ↔ w.count = call ∨ w.inner c.frame := by
      rw [or_iff_right hne]
    refine ⟨w.enter (w.inner c.frame), le_enter .., ⟨?_, ?_⟩, ?_⟩
    · exact hstores.enter hinside hlt (fun hin => (hfresh hin).1) hvalues
    · rwa [Store.get?_push_of_lt hcall]
    · exact hstores.nodes_enter (fun hin => (hfresh hin).2)

/-! ## Before and after a call -/

/-- The frames of a store before a call.  None of them is inside. -/
def before (store : Store) : Region :=
  ⟨store.frames.size, fun _ => false⟩

/-- Values of a store before a call are the same in both runs. -/
theorem related_before {store : Store} {value : Value} (h : value.Within store.frames.size) :
    value.Related ((before store).Closures x y) value :=
  h.related fun closure hlt => ⟨hlt, closure.rename_id.symm, by simp [before]⟩

theorem stores_before {store : Store} (hstore : store.WellFormed) :
    (before store).Stores x y store.nextFrame store store where
  size_left := rfl
  size_right := rfl
  closures := rfl
  outer? _ := rfl
  outer_lt := hstore.outer_lt
  inner_iff f hlt := by
    have hne : f ≠ store.nextFrame := Nat.ne_of_lt hlt
    simp [before, hne]
  get? f a _ := by
    change Option.Rel _ (store.get? f a) (store.get? f a)
    cases hvalue : store.get? f a with
    | none => exact .none
    | some value => exact .some (related_before (hstore.within f a value hvalue))

end Region

/-- The same closure, with new names if it is inside: if the way outward from its frame leads to
the frame of the call. -/
structure Closure.RenamedIn (store : Store) (call : Nat) (r : String → String)
    (closure other : Closure) : Prop where
  inside : store.Outward closure.frame call → other = closure.rename r
  outside : ¬ store.Outward closure.frame call → other = closure

/-- The same value or the same error, up to new names. -/
inductive RenamedResult (R : Closure → Closure → Prop) (r : String → String) :
    Except EvalError Value → Except EvalError Value → Prop where
  | value {v w : Value} (h : v.Related R w) : RenamedResult R r (.ok v) (.ok w)
  | error {error other : EvalError} (h : error.Renamed r other) :
      RenamedResult R r (.error error) (.error other)

/-- The answers of two calls from one store are the same up to new names.  Frames that there were
before, and all others outside, bind the same names.  Inside, `y` is bound in the place of `x`. -/
structure RenamedAnswer (x y : String) (store : Store)
    (first second : Except EvalError Value × Store) : Prop where
  result : RenamedResult (Closure.RenamedIn first.2 store.nextFrame (replaced x y)) (replaced x y)
    first.1 second.1
  before : ∀ frame < store.frames.size, ∀ name,
    Option.Rel (Value.Related (Closure.RenamedIn first.2 store.nextFrame (replaced x y)))
      (first.2.get? frame name) (second.2.get? frame name)
  outside : ∀ frame, ¬ first.2.Outward frame store.nextFrame → ∀ name,
    Option.Rel (Value.Related (Closure.RenamedIn first.2 store.nextFrame (replaced x y)))
      (first.2.get? frame name) (second.2.get? frame name)
  inside : ∀ frame, first.2.Outward frame store.nextFrame → ∀ name, name ≠ y →
    Option.Rel (Value.Related (Closure.RenamedIn first.2 store.nextFrame (replaced x y)))
      (first.2.get? frame name) (second.2.get? frame (replaced x y name))
  size : second.2.frames.size = first.2.frames.size
  outer? : ∀ frame, second.2.outer? frame = first.2.outer? frame
  closures : second.2.closures = first.2.closures

namespace Region.Stores

variable {w : Region} {x y : String} {call f : Nat} {S T : Store} (h : w.Stores x y call S T)

include h

theorem inner_iff_outward (hlt : f < w.count) : w.inner f ↔ S.Outward f call := by
  induction f using Nat.strongRecOn with
  | ind f ih =>
    have hnext : ∀ outer, S.outer? f = some outer → (w.inner outer ↔ S.Outward outer call) :=
      fun outer houter => ih outer (h.outer_lt houter) (Nat.lt_trans (h.outer_lt houter) hlt)
    rw [h.inner_iff f hlt]
    constructor
    · rintro (rfl | ⟨outer, houter, hinner⟩)
      · exact .refl
      · exact .head houter ((hnext outer houter).mp hinner)
    · intro hout
      rcases hout.cases_head with rfl | ⟨outer, houter, hrest⟩
      · exact .inl rfl
      · exact .inr ⟨outer, houter, (hnext outer houter).mpr hrest⟩

theorem renamedIn {c d : Closure} (hclosure : w.Closures x y c d) :
    c.RenamedIn S call (replaced x y) d := by
  have hinner := h.inner_iff_outward hclosure.lt
  refine ⟨fun hout => ?_, fun hout => ?_⟩
  · rw [hclosure.eq, rename, hinner.mpr hout]
    rfl
  · rw [hclosure.eq, rename, Bool.eq_false_iff.mpr fun hin => hout (hinner.mp hin)]
    exact c.rename_id

theorem related {a b : String} (hname : f < w.count → b = w.rename x y f a)
    (hfresh : f < w.count → w.inner f → a ≠ y) :
    Option.Rel (Value.Related (Closure.RenamedIn S call (replaced x y))) (S.get? f a)
      (T.get? f b) := by
  rcases Nat.lt_or_ge f w.count with hlt | hmissing
  · rw [hname hlt]
    refine Option.rel_imp (h.get? f a (hfresh hlt)) fun _ _ hvalue => ?_
    exact hvalue.mono fun _ _ => h.renamedIn
  · rw [Store.get?_eq_none (h.size_left ▸ hmissing), Store.get?_eq_none (h.size_right ▸ hmissing)]
    exact .none

theorem outside (hout : ¬ S.Outward f call) (a : String) :
    Option.Rel (Value.Related (Closure.RenamedIn S call (replaced x y))) (S.get? f a)
      (T.get? f a) := by
  have houtside : f < w.count → w.inner f = false := fun hlt =>
    Bool.eq_false_iff.mpr fun hin => hout ((h.inner_iff_outward hlt).mp hin)
  refine h.related (fun hlt => ?_) fun hlt hin => ?_
  · rw [rename, houtside hlt]
    rfl
  · simp [houtside hlt] at hin

theorem inside (hout : S.Outward f call) {a : String} (hne : a ≠ y) :
    Option.Rel (Value.Related (Closure.RenamedIn S call (replaced x y))) (S.get? f a)
      (T.get? f (replaced x y a)) := by
  refine h.related (fun hlt => ?_) fun _ _ => hne
  rw [rename, (h.inner_iff_outward hlt).mpr hout]
  rfl

/-- The frames that there were before the call are not inside. -/
theorem not_outward {store : Store} (hle : before store ≤ w) (hlt : f < store.frames.size) :
    ¬ S.Outward f call := by
  rw [← h.inner_iff_outward (Nat.lt_of_lt_of_le hlt hle.1), hle.2 f hlt]
  exact Bool.false_ne_true

omit h

theorem answer {store : Store} (h : w.Stores x y store.nextFrame S T) (hle : before store ≤ w)
    {result other : Except EvalError Value}
    (hresult : RenamedResult (w.Closures x y) (replaced x y) result other) :
    RenamedAnswer x y store (result, S) (other, T) where
  result := by
    cases hresult with
    | value hvalue => exact .value (hvalue.mono fun _ _ => h.renamedIn)
    | error herror => exact .error herror
  before _ hlt := h.outside (h.not_outward hle hlt)
  outside _ hout := h.outside hout
  inside _ hout _ hne := h.inside hout hne
  size := h.size_right.trans h.size_left.symm
  outer? := h.outer?
  closures := h.closures

end Region.Stores

namespace Store

variable {store : Store} {closure : Closure} {arguments : List Value} {x y : String}

/-- The frame of a call binds each parameter. -/
theorem isSome_get?_entered (hcount : arguments.length = closure.parameters.length)
    (hmem : x ∈ closure.parameters) :
    ((store.entered closure arguments).get? store.nextFrame x).isSome := by
  rw [entered, get?_push_nextFrame, Bindings.isSome_get?_ofPairs_iff,
    List.map_fst_zip (Nat.le_of_eq hcount.symm)]
  exact hmem

/-- The stores where the bodies of both closures are evaluated. -/
theorem CanCall.stores_entered (hcall : store.CanCall closure arguments) (hstore : store.WellFormed)
    (hfresh : y ∉ closure.parameters) :
    ((Region.before store).enter true).Stores x y store.nextFrame
      (store.entered closure arguments)
      (store.entered (closure.rename (replaced x y)) arguments) := by
  refine (Region.stores_before hstore).enter ?_ hcall.closure (fun _ => hfresh) ?_
  · exact iff_of_true rfl (.inl rfl)
  · refine List.forall₂_same.mpr fun argument hmem => ?_
    exact Region.related_before (hcall.arguments argument hmem)

/-- A parameter of a closure can be renamed to any name that occurs in the closure nowhere, if both
are no keywords.  Calls of both closures end alike, up to the new name, and frames that there were
before bind the same names in the end, whatever the two names are bound to there. -/
theorem WellFormed.apply_rename (hstore : store.WellFormed)
    (hcall : store.CanCall closure arguments) (hx : Keyword.ofName? x = none)
    (hy : Keyword.ofName? y = none) (hparameter : x ∈ closure.parameters)
    (hfresh : y ∉ closure.parameters) (hbody : closure.body.Lacks y) (identity : Nat) (span : Span)
    (depth : Nat) :
    Option.Rel (RenamedAnswer x y store)
      (TinyLisp.apply depth (.closure closure) arguments span store)
      (TinyLisp.apply depth (.closure { closure.rename (replaced x y) with identity }) arguments
        span store) := by
  have hbefore : (Region.before store).Stores x y store.nextFrame store store :=
    Region.stores_before hstore
  have hlength : closure.parameters.length = (closure.rename (replaced x y)).parameters.length :=
    (List.length_map _).symm
  -- No call looks at the identity of the closure.
  change Option.Rel (RenamedAnswer x y store) (TinyLisp.apply depth (.closure closure) _ _ _)
    (TinyLisp.apply depth (.closure (closure.rename (replaced x y))) _ _ _)
  by_cases hcount : arguments.length = closure.parameters.length
  · rw [apply_closure depth store hcount, apply_closure depth store (hcount.trans hlength)]
    have hnodes : ((Region.before store).enter true).Nodes x y store.nextFrame closure.body
        store.nextFrame (closure.rename (replaced x y)).body :=
      hbefore.nodes_enter fun _ => hbody
    have hruns : (Region.simulation hx hy store.nextFrame).Relates _ _ _ _ :=
      Simulation.eval_relates depth hnodes
    have hstart := hcall.stores_entered (x := x) hstore hfresh
    have hbound : ((store.entered closure arguments).get? store.nextFrame x).isSome :=
      isSome_get?_entered hcount hparameter
    refine Option.rel_imp (hruns _ _ ⟨hstart, hbound⟩) fun first second hanswers => ?_
    cases hanswers with
    | value hle hstores hvalue =>
      exact hstores.1.answer (le_trans (Region.le_enter ..) hle) (.value hvalue)
    | error hle hstores herror =>
      exact hstores.1.answer (le_trans (Region.le_enter ..) hle) (.error herror)
  · -- With another number of arguments, neither body is evaluated.
    simp only [TinyLisp.apply, Eval.apply, Eval.callClosure, ← hlength, if_neg hcount]
    exact .some (hbefore.answer le_rfl (.error ⟨rfl, .same⟩))

/-- The closure that `(lambda (x) (lambda (z) x))` makes in the first frame. -/
def delayX : Closure :=
  ⟨0, ["x"], .list [.symbol "lambda" ⟨13, 19⟩, .list [.symbol "z" ⟨21, 22⟩] ⟨20, 23⟩,
    .symbol "x" ⟨24, 25⟩] ⟨12, 26⟩, 0⟩

/-- The closure that `(lambda (y) (lambda (z) y))` makes there. -/
def delayY : Closure :=
  ⟨1, ["y"], .list [.symbol "lambda" ⟨13, 19⟩, .list [.symbol "z" ⟨21, 22⟩] ⟨20, 23⟩,
    .symbol "y" ⟨24, 25⟩] ⟨12, 26⟩, 0⟩

/-- A store that binds `y`. -/
def bindsY : Store :=
  { bare.set 0 "y" (.number 2) with closures := 2 }

/-- Both calls return closures that are alike up to the new name, although the frame around binds
another `y`. -/
theorem delayX_renamed :
    RenamedAnswer "x" "y" bindsY
      (.ok (.procedure (.closure ⟨2, ["z"], .symbol "x" ⟨24, 25⟩, 1⟩)),
        { bindsY.entered delayX [.number 1] with closures := 3 })
      (.ok (.procedure (.closure ⟨2, ["z"], .symbol "y" ⟨24, 25⟩, 1⟩)),
        { bindsY.entered delayY [.number 1] with closures := 3 }) := by
  have hbare : bare.WellFormed :=
    (WellFormed.empty.push (by simp) (ForClosures.empty.push (by simp [Bindings.get?]))).count 1
  have hnumber : Value.Within bare.frames.size (.number 2) := trivial
  have hstore : bindsY.WellFormed := (hbare.set 0 "y" hnumber).count 2
  have hcall : bindsY.CanCall delayX [.number 1] :=
    ⟨by decide, List.forall_mem_singleton.mpr trivial⟩
  have hrename : { delayX.rename (replaced "x" "y") with identity := 1 } = delayY := by
    simp [delayX, delayY, Closure.rename, replaced]
  have hfirst : TinyLisp.apply 1 (.closure delayX) [.number 1] ⟨0, 3⟩ bindsY =
      some (.ok (.procedure (.closure ⟨2, ["z"], .symbol "x" ⟨24, 25⟩, 1⟩)),
        { bindsY.entered delayX [.number 1] with closures := 3 }) := by
    with_unfolding_all rfl
  have hsecond : TinyLisp.apply 1 (.closure delayY) [.number 1] ⟨0, 3⟩ bindsY =
      some (.ok (.procedure (.closure ⟨2, ["z"], .symbol "y" ⟨24, 25⟩, 1⟩)),
        { bindsY.entered delayY [.number 1] with closures := 3 }) := by
    with_unfolding_all rfl
  have hruns := hstore.apply_rename hcall (x := "x") (y := "y") (by decide) (by decide)
    (by decide) (by decide) (by simp [delayX]) 1 ⟨0, 3⟩ 1
  rw [hrename, hfirst, hsecond] at hruns
  cases hruns with
  | some hanswer => exact hanswer

end Store
end TinyLisp
