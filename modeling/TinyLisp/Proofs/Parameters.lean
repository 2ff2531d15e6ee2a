import TinyLisp.Proofs.Encapsulation

/-!
# Parameters and arguments

A call binds the parameters of a closure to its arguments, one after the other and each in the
place of an older binding of its name.  So a name that stands there more than once is bound to the
argument at its last place, and nothing is bound to the others.

* `LastOf`: the value at the last place of a name.
* `Bindings.get?_ofPairs_zip_eq_some_iff`: the binding of names in a row.  The induction is from the
  end, since the last pair is the one that the binding behind it sees.
* `Bindings.nodup_names_ofPairs`: no name is bound twice.
* `Store.Enters`: the store and the frame in which a body is evaluated, and
  `Store.call_enters`: what a call does.
-/

namespace TinyLisp

/-- The value stands at the place where the name stands for the last time. -/
def LastOf (names : List String) (values : List Value) (name : String) (value : Value) : Prop :=
  ∃ index : Nat, names[index]? = some name ∧ values[index]? = some value ∧
    ∀ later, index < later → names[later]? ≠ some name

section LastOf

variable {names : List String} {values : List Value} {name last : String} {value given : Value}

/-- The last pair is the one that counts, if it is one of the name. -/
theorem lastOf_append_singleton_self (hcount : values.length = names.length) :
    LastOf (names ++ [name]) (values ++ [given]) name value ↔ given = value := by
  constructor
  · rintro ⟨index, hname, hvalue, hlater⟩
    have hlt : index < names.length + 1 := by
      simpa using (List.getElem?_eq_some_iff.mp hname).1
    have hlast : ¬ index < names.length := fun hbefore => hlater names.length hbefore (by simp)
    have hindex : index = values.length := by omega
    subst hindex
    simpa using hvalue
  · rintro rfl
    refine ⟨names.length, by simp, by simp [← hcount], fun later hlt => ?_⟩
    rw [List.getElem?_eq_none (by simp; omega)]
    simp

/-- A pair of another name changes nothing. -/
theorem lastOf_append_singleton_of_ne (hcount : values.length = names.length)
    (hne : last ≠ name) :
    LastOf (names ++ [last]) (values ++ [given]) name value ↔ LastOf names values name value := by
  have hname : ∀ index : Nat, (names ++ [last])[index]? = some name ↔
      names[index]? = some name := by
    intro index
    by_cases hlt : index < names.length
    · rw [List.getElem?_append_left hlt]
    · rw [List.getElem?_append_right (by omega), List.getElem?_eq_none (l := names) (by omega)]
      cases index - names.length <;> simp [hne]
  constructor
  · rintro ⟨index, hhere, hvalue, hlater⟩
    have hold := (hname index).mp hhere
    have hlt : index < names.length := (List.getElem?_eq_some_iff.mp hold).1
    rw [List.getElem?_append_left (by omega)] at hvalue
    exact ⟨index, hold, hvalue, fun later hbehind h => hlater later hbehind ((hname later).mpr h)⟩
  · rintro ⟨index, hhere, hvalue, hlater⟩
    have hlt : index < names.length := (List.getElem?_eq_some_iff.mp hhere).1
    refine ⟨index, (hname index).mpr hhere, ?_,
      fun later hbehind h => hlater later hbehind ((hname later).mp h)⟩
    rwa [List.getElem?_append_left (by omega)]

end LastOf

namespace Bindings

variable {names : List String} {values : List Value} {name : String} {value : Value}

/-- Names that are bound in a row are bound to the values at their last places. -/
theorem get?_ofPairs_zip_eq_some_iff (hcount : values.length = names.length) :
    (ofPairs (names.zip values)).get? name = some value ↔ LastOf names values name value := by
  induction names using List.reverseRecOn generalizing values with
  | nil => simp [ofPairs, get?, LastOf]
  | append_singleton names last ih =>
    obtain ⟨front, given, rfl⟩ : ∃ front given, values = front ++ [given] := by
      rcases List.eq_nil_or_concat values with rfl | ⟨front, given, rfl⟩
      · simp at hcount
      · exact ⟨front, given, List.concat_eq_append ..⟩
    have hfront : front.length = names.length := by simpa using hcount
    rw [List.zip_append hfront.symm, List.zip_cons_cons, List.zip_nil_left,
      ofPairs_append_singleton, get?_set]
    by_cases hname : last = name
    · subst hname
      rw [if_pos rfl, Option.some.injEq, lastOf_append_singleton_self hfront]
    · rw [if_neg hname, ih hfront, lastOf_append_singleton_of_ne hfront hname]

theorem mem_names_set {bindings : Bindings} {other : String} :
    other ∈ (bindings.set name value).names ↔ name = other ∨ other ∈ bindings.names := by
  rw [← get?_isSome_iff, get?_set, ← get?_isSome_iff]
  by_cases hname : name = other <;> simp [hname]

theorem nodup_names_set {bindings : Bindings} (h : bindings.names.Nodup) (name : String)
    (value : Value) : (bindings.set name value).names.Nodup := by
  induction bindings with
  | nil => simp [set, names]
  | cons pair rest ih =>
    obtain ⟨other, old⟩ := pair
    obtain ⟨hfresh, hrest⟩ := List.nodup_cons.mp h
    unfold set
    by_cases hother : other = name
    · rw [if_pos hother]
      subst hother
      exact h
    · rw [if_neg hother]
      refine List.nodup_cons.mpr ⟨fun hmem => ?_, ih hrest⟩
      rcases mem_names_set.mp hmem with hname | hold
      · exact hother hname.symm
      · exact hfresh hold

/-- No name is bound twice. -/
theorem nodup_names_ofPairs (pairs : List (String × Value)) : (ofPairs pairs).names.Nodup := by
  induction pairs using List.reverseRecOn with
  | nil => exact List.nodup_nil
  | append_singleton pairs pair ih =>
    rw [ofPairs_append_singleton]
    exact nodup_names_set ih pair.1 pair.2

theorem mem_names_ofPairs_zip_iff (hcount : values.length = names.length) :
    name ∈ (ofPairs (names.zip values)).names ↔ name ∈ names := by
  rw [← get?_isSome_iff, isSome_get?_ofPairs_iff, List.map_fst_zip (Nat.le_of_eq hcount.symm)]

end Bindings

namespace Store

/-- The body of the closure is to be evaluated in this frame of the second store.  The first store
has no such frame, and the second is the first but for it. -/
structure Enters (store : Store) (closure : Closure) (arguments : List Value) (frame : Nat)
    (bindings : Bindings) (entered : Store) : Prop where
  fresh : store.frames[frame]? = none
  made : entered.frames[frame]? = some ⟨some closure.frame, bindings⟩
  nodup : bindings.names.Nodup
  names : ∀ name, name ∈ bindings.names ↔ name ∈ closure.parameters
  get? : ∀ name value, bindings.get? name = some value ↔
    LastOf closure.parameters arguments name value
  others : ∀ other, other ≠ frame → entered.frames[other]? = store.frames[other]?
  closures : entered.closures = store.closures

variable {store : Store} {closure : Closure} {arguments : List Value}

theorem enters_entered (hcount : arguments.length = closure.parameters.length) :
    store.Enters closure arguments store.nextFrame
      (Bindings.ofPairs (closure.parameters.zip arguments)) (store.entered closure arguments) where
  fresh := Array.getElem?_eq_none (Nat.le_refl _)
  made := getElem?_push_nextFrame ..
  nodup := Bindings.nodup_names_ofPairs _
  names _ := Bindings.mem_names_ofPairs_zip_iff hcount
  get? _ _ := Bindings.get?_ofPairs_zip_eq_some_iff hcount
  others other hne := by
    rw [entered, getElem?_push, if_neg hne]
  closures := rfl

/-- Nothing in a well-formed store refers to the next frame. -/
theorem WellFormed.ne_nextFrame (h : store.WellFormed) :
    (∀ other, store.outer? other ≠ some store.nextFrame) ∧
      ∀ bound, store.Binds bound → bound.frame ≠ store.nextFrame := by
  constructor
  · intro other houter
    have hinner : store.nextFrame < other := h.outer_lt houter
    have hlt : other < store.nextFrame := lt_size_of_outer? houter
    omega
  · intro bound hbinds
    exact Nat.ne_of_lt (forClosures_iff.mp h.within bound hbinds)

/-- A call with another number of arguments than parameters fails and changes nothing.  Otherwise
the body is evaluated in a new frame, to which neither the store nor the call refers and which is
enclosed by the frame that the closure captures.  It binds the parameters and no other names, each
of them to the argument at its last place.  All other frames are as they were. -/
theorem call_enters (store : Store) (closure : Closure) (arguments : List Value) (span : Span) :
    (arguments.length ≠ closure.parameters.length → ∀ depth,
      apply depth (.closure closure) arguments span store =
        some (.error ⟨.arityMismatch .lambda closure.parameters.length arguments.length, span⟩,
          store)) ∧
    (arguments.length = closure.parameters.length → ∃ frame bindings entered,
      store.Enters closure arguments frame bindings entered ∧
      (store.WellFormed → (∀ other, store.outer? other ≠ some frame) ∧
        ∀ bound, store.Binds bound → bound.frame ≠ frame) ∧
      (store.CanCall closure arguments → ¬ Sources closure arguments frame) ∧
      ∀ depth, apply depth (.closure closure) arguments span store =
        eval depth frame closure.body entered) := by
  constructor
  · intro hcount depth
    show Eval.callClosure _ closure arguments span store = _
    unfold Eval.callClosure
    rw [if_neg hcount]
    rfl
  · intro hcount
    exact ⟨store.nextFrame, _, store.entered closure arguments, enters_entered hcount,
      WellFormed.ne_nextFrame, fun hcall hsource => Nat.lt_irrefl _ (hcall.lt_of_sources hsource),
      fun depth => apply_closure depth store hcount span⟩

/-- A closure over the global frame whose first parameter has the name of the last. -/
def repeatsX : Closure :=
  ⟨0, ["x", "", "x"], .symbol "x" ⟨17, 18⟩, 0⟩

/-- The procedures `+`, `<` and `eq?`. -/
def threeBuiltins : List Value :=
  [.procedure (.builtin .add), .procedure (.builtin .less), .procedure (.builtin .equal)]

/-- With two arguments the call fails.  With three, the last `x` holds, and the first argument is
bound to no name. -/
theorem call_enters_repeatsX :
    2 ≠ repeatsX.parameters.length ∧
      apply 1 (.closure repeatsX) [.number 1, .number 2] ⟨0, 9⟩ Session.new.store =
        some (.error ⟨.arityMismatch .lambda 3 2, ⟨0, 9⟩⟩, Session.new.store) ∧
      threeBuiltins.length = repeatsX.parameters.length ∧ Session.new.store.WellFormed ∧
      Session.new.store.CanCall repeatsX threeBuiltins ∧ ∃ frame bindings entered,
        Session.new.store.Enters repeatsX threeBuiltins frame bindings entered ∧
        (∀ bound, Session.new.store.Binds bound → bound.frame ≠ frame) ∧ frame ≠ 0 ∧
        bindings.get? "x" = some (.procedure (.builtin .equal)) ∧
        bindings.get? "" = some (.procedure (.builtin .less)) ∧
        (∀ name, bindings.get? name ≠ some (.procedure (.builtin .add))) ∧
        ∀ depth, apply depth (.closure repeatsX) threeBuiltins ⟨0, 9⟩ Session.new.store =
          eval depth frame repeatsX.body entered := by
  have hstore := Session.hosts_new.wellFormed
  have hcall : Session.new.store.CanCall repeatsX threeBuiltins :=
    ⟨Session.hosts_new.lt_size, by
      simp [threeBuiltins, Value.Within, Value.ForClosures, Procedure.ForClosures]⟩
  obtain ⟨hfails, -⟩ :=
    Session.new.store.call_enters repeatsX [.number 1, .number 2] ⟨0, 9⟩
  obtain ⟨-, hcalls⟩ := Session.new.store.call_enters repeatsX threeBuiltins ⟨0, 9⟩
  obtain ⟨frame, bindings, entered, henters, hfresh, hapart, hbody⟩ := hcalls rfl
  have hlast : ∀ name value, bindings.get? name = some value ↔
      LastOf ["x", "", "x"] threeBuiltins name value := henters.get?
  refine ⟨by decide, hfails (by decide) 1, rfl, hstore, hcall, frame, bindings, entered, henters,
    (hfresh hstore).2, fun hzero => hapart hcall (.inl hzero.symm),
    (hlast _ _).mpr ⟨2, rfl, rfl, fun later hlt => ?_⟩,
    (hlast _ _).mpr ⟨1, rfl, rfl, fun later hlt => ?_⟩, fun name hname => ?_, hbody⟩
  · rw [List.getElem?_eq_none hlt]
    simp
  · match later, hlt with
    | 2, _ => decide
    | later + 3, _ => simp
  · obtain ⟨index, hhere, hvalue, hlater⟩ := (hlast _ _).mp hname
    match index, hvalue with
    | 0, _ => exact hlater 2 (by decide) hhere
    | later + 3, hvalue => simp [threeBuiltins] at hvalue

end Store
end TinyLisp
