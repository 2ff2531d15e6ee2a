import TinyLisp.Proofs.Encapsulation

/-!
# Names that are not mentioned

A keyword at the head of a list is not looked up.  Every other symbol in a node is a name that
the node mentions.  If neither a node nor the body of a closure of the store mentions a name, then
no evaluation of the node asks what the name is bound to, and none binds it in a frame that there
was before.  So one more binding of it is still there afterwards, and all else is as it would be
without that binding.

* `Node.Mentions`: the symbols of a node other than keywords at the heads of lists.  By
  `Node.mentions_iff_exists_part` a name that is no keyword is mentioned wherever it occurs.
* `Store.Agrees`, with one lemma for each operation that changes a store.
* `Store.Spares`: a store beside itself with one more binding, and `sparing`: two runs of which
  one has the binding.
* `Store.eval_set_unmentioned`: evaluations with and without the binding end alike.
-/

namespace TinyLisp

/-! ## Mentioned names -/

/-- The name occurs in the node, and not only as a keyword at the head of a list. -/
inductive Node.Mentions (name : String) : Node → Prop where
  | symbol {span : Span} : Mentions name (.symbol name span)
  | head {head : Node} {operands : List Node} {span : Span} (hkey : Eval.keyword? head = none)
      (h : Mentions name head) : Mentions name (.list (head :: operands) span)
  | operand {head operand : Node} {operands : List Node} {span : Span} (hmem : operand ∈ operands)
      (h : Mentions name operand) : Mentions name (.list (head :: operands) span)

namespace Node

variable {name other : String} {span : Span}

@[simp] theorem not_mentions_number (value : Float) : ¬ (number value span).Mentions name := by
  rintro ⟨⟩

@[simp] theorem not_mentions_empty : ¬ (list [] span).Mentions name := by
  rintro ⟨⟩

@[simp] theorem mentions_symbol_iff : (symbol other span).Mentions name ↔ other = name := by
  constructor
  · rintro ⟨⟩
    rfl
  · rintro rfl
    exact .symbol

/-- A special form mentions what its operands mention, and not its keyword. -/
theorem mentions_form_iff {keyword : Keyword} {head : Node} {operands : List Node}
    (hkey : Eval.keyword? head = some keyword) :
    (list (head :: operands) span).Mentions name ↔ ∃ operand ∈ operands, operand.Mentions name := by
  constructor
  · intro h
    cases h with
    | head hfree => simp [hkey] at hfree
    | operand hmem h => exact ⟨_, hmem, h⟩
  · rintro ⟨operand, hmem, h⟩
    exact .operand hmem h

/-- What a node mentions occurs in it. -/
theorem exists_part_of_mentions {node : Node} (h : node.Mentions name) :
    ∃ span, (symbol name span).Part node := by
  induction h with
  | symbol => exact ⟨_, .self⟩
  | head _ _ ih =>
    obtain ⟨span, hpart⟩ := ih
    exact ⟨span, .child List.mem_cons_self hpart⟩
  | operand hmem _ ih =>
    obtain ⟨span, hpart⟩ := ih
    exact ⟨span, .child (List.mem_cons_of_mem _ hmem) hpart⟩

/-- A name that is no keyword is mentioned wherever it occurs. -/
theorem mentions_iff_exists_part (hname : Keyword.ofName? name = none) {node : Node} :
    node.Mentions name ↔ ∃ span, (symbol name span).Part node := by
  refine ⟨exists_part_of_mentions, ?_⟩
  rintro ⟨span, hpart⟩
  induction node with
  | number => cases hpart
  | symbol other place =>
    cases hpart
    exact .symbol
  | list children place ih =>
    cases hpart with
    | child hmem hpart =>
      have hchild := ih _ hmem hpart
      match children, hmem, hchild with
      | head :: operands, hmem, hchild =>
        rcases List.mem_cons.mp hmem with rfl | hoperand
        · refine .head ?_ hchild
          cases hchild with
          | symbol => exact hname
          | head | operand => rfl
        · exact .operand hoperand hchild

end Node

/-! ## Stores that agree -/

namespace Store

variable {S T U : Store} {owner frame : Nat} {name other : String} {value new : Value}

namespace Agrees

theorem trans (h : S.Agrees T) (h' : T.Agrees U) : S.Agrees U where
  size := h.size.trans h'.size
  closures := h.closures.trans h'.closures
  outer? frame := (h.outer? frame).trans (h'.outer? frame)
  get? frame name := (h.get? frame name).trans (h'.get? frame name)

theorem set (h : S.Agrees T) (frame : Nat) (name : String) (value : Value) :
    (S.set frame name value).Agrees (T.set frame name value) where
  size := by rw [size_set, size_set, h.size]
  closures := h.closures
  outer? other := by rw [outer?_set, outer?_set, h.outer?]
  get? other wanted := by rw [get?_set, get?_set, h.size, h.get?]

theorem push (h : S.Agrees T) (frame : Frame) : (S.push frame).Agrees (T.push frame) where
  size := by rw [size_push, size_push, h.size]
  closures := h.closures
  outer? other := by rw [outer?_push, outer?_push, nextFrame, nextFrame, h.size, h.outer?]
  get? other wanted := by rw [get?_push, get?_push, nextFrame, nextFrame, h.size, h.get?]

theorem count (h : S.Agrees T) :
    Agrees { S with closures := S.closures + 1 } { T with closures := T.closures + 1 } where
  size := h.size
  closures := congrArg (· + 1) h.closures
  outer? := h.outer?
  get? := h.get?

end Agrees

/-- Two names can be bound in either order. -/
theorem set_agrees_set (hne : other ≠ name) :
    ((S.set owner name value).set frame other new).Agrees
      ((S.set frame other new).set owner name value) where
  size := by simp
  closures := rfl
  outer? := by simp
  get? inner wanted := by
    simp only [get?_set, size_set]
    split_ifs <;> simp_all

/-- A name can be bound before or after one more frame is made. -/
theorem push_agrees_set (hlt : owner < S.frames.size) (frame : Frame) :
    ((S.set owner name value).push frame).Agrees ((S.push frame).set owner name value) where
  size := by simp
  closures := rfl
  outer? inner := by rw [outer?_push, outer?_set, outer?_set, outer?_push, nextFrame_set]
  get? inner wanted := by
    rw [get?_push, nextFrame_set, get?_set, get?_set, get?_push, size_push]
    by_cases hlast : inner = S.nextFrame
    · have hne : owner ≠ inner := hlast ▸ Nat.ne_of_lt hlt
      rw [if_pos hlast, if_pos hlast, if_neg fun hall => hne hall.1]
    · rw [if_neg hlast, if_neg hlast]
      by_cases howner : owner = inner
      · simp [← howner, hlt, Nat.lt_succ_of_lt hlt]
      · simp [howner]

/-! ## One more binding -/

/-- The second store has one more binding, of a name that no closure of the first mentions. -/
structure Spares (owner : Nat) (name : String) (value : Value) (S T : Store) : Prop where
  owner_lt : owner < S.frames.size
  agrees : T.Agrees (S.set owner name value)
  unmentioned : S.ForClosures fun closure => ¬ closure.body.Mentions name

namespace Spares

variable (h : Spares owner name value S T)

include h

theorem get?_eq (hne : other ≠ name) (frame : Nat) : T.get? frame other = S.get? frame other := by
  rw [h.agrees.get?, get?_set, if_neg fun hall => hne hall.2.1.symm]

theorem find?_eq (hne : other ≠ name) (frame : Nat) :
    T.find? frame other = S.find? frame other := by
  refine find?_congr (fun inner => ?_) (fun inner => ?_) frame
  · rw [h.agrees.outer?, outer?_set]
  · rw [h.get?_eq hne]

theorem set (hne : other ≠ name) (hnew : new.ForClosures fun c => ¬ c.body.Mentions name) :
    Spares owner name value (S.set frame other new) (T.set frame other new) where
  owner_lt := by
    rw [size_set]
    exact h.owner_lt
  agrees := (h.agrees.set frame other new).trans (set_agrees_set hne)
  unmentioned := h.unmentioned.set frame other hnew

theorem count :
    Spares owner name value { S with closures := S.closures + 1 }
      { T with closures := T.closures + 1 } :=
  ⟨h.owner_lt, h.agrees.count, h.unmentioned⟩

theorem enter {outer : Nat} {names : List String} {values : List Value}
    (hvalues : ∀ value ∈ values, value.ForClosures fun c => ¬ c.body.Mentions name) :
    Spares owner name value (S.push ⟨some outer, Bindings.ofPairs (names.zip values)⟩)
      (T.push ⟨some outer, Bindings.ofPairs (names.zip values)⟩) where
  owner_lt := by
    rw [size_push]
    exact Nat.lt_succ_of_lt h.owner_lt
  agrees := (h.agrees.push _).trans (push_agrees_set h.owner_lt _)
  unmentioned := h.unmentioned.enter hvalues

theorem nextFrame_eq : T.nextFrame = S.nextFrame := by
  rw [nextFrame, h.agrees.size, size_set, nextFrame]

end Spares
end Store

/-! ## Runs with and without the binding -/

/-- The same value, of which the closure has a property. -/
theorem Value.related_eq_and_iff {P : Closure → Prop} {x y : Value} :
    x.Related (fun c d => c = d ∧ P c) y ↔ x = y ∧ x.ForClosures P := by
  constructor
  · intro h
    cases h with
    | number => exact ⟨rfl, trivial⟩
    | procedure h =>
      cases h with
      | builtin => exact ⟨rfl, trivial⟩
      | closure h => exact ⟨by rw [h.1], h.2⟩
  · rintro ⟨rfl, h⟩
    exact h.related fun _ hclosure => ⟨rfl, hclosure⟩

theorem Value.forall₂_related_eq_and {P : Closure → Prop} {xs ys : List Value}
    (h : List.Forall₂ (Value.Related fun c d => c = d ∧ P c) xs ys) :
    xs = ys ∧ ∀ x ∈ xs, x.ForClosures P := by
  induction h with
  | nil => simp
  | cons hvalue _ ih =>
    obtain ⟨rfl, hfirst⟩ := related_eq_and_iff.mp hvalue
    obtain ⟨rfl, hrest⟩ := ih
    exact ⟨rfl, List.forall_mem_cons.mpr ⟨hfirst, hrest⟩⟩

/-- If what is alike in nodes includes a node that does not mention the name and itself, then the
rule of such a node is its own. -/
theorem Node.matches_of_not_mentions {like : Likeness} {name : String}
    (hspans : ∀ span, like.spans span span) (hnames : ∀ other, other ≠ name → like.names other other)
    (hnodes : ∀ node : Node, ¬ node.Mentions name → like.nodes node node)
    (hlambdas : ∀ (names : List String) (body : Node), ¬ body.Mentions name →
      like.lambdas names body names body)
    (herrors : ∀ error, like.errors error error) {node : Node} (h : ¬ node.Mentions name) :
    Node.Matches like node node := by
  have hsame : ∀ node : Node, node.relabel id id = node := fun node => by
    rw [relabel_id, respan_id]
  have hkeeps : like.Keeps (fun node => ¬ node.Mentions name) id id := {
    keys := fun _ => rfl
    head := fun hclass hkey hhead => hclass (.head hkey hhead)
    operands := fun hclass _ hmem hoperand => hclass (.operand hmem hoperand)
    spans := hspans
    names := fun hclass => hnames _ (by simpa using hclass)
    nodes := fun hclass => by
      rw [hsame]
      exact hnodes _ hclass
    lambdas := fun _ hclass _ => by
      rw [hsame, List.map_id]
      exact hlambdas _ _ hclass
    errors := fun hrenamed => by
      rw [hrenamed.eq]
      exact herrors _ }
  have hmatches := hkeeps.matches_relabel h
  rwa [hsame] at hmatches

/-- Two runs of nodes that do not mention the name, which is bound once more in one of the
runs. -/
def sparing (owner : Nat) (name : String) (value : Value) : Simulation Nat where
  Stores _ := Store.Spares owner name value
  Closures _ c d := c = d ∧ ¬ c.body.Mentions name
  Names _ f a g b := f = g ∧ a = b ∧ a ≠ name
  Nodes _ f n g m := f = g ∧ n = m ∧ ¬ n.Mentions name
  Lambdas _ f names body g others code :=
    f = g ∧ names = others ∧ body = code ∧ ¬ body.Mentions name
  Spans := Eq
  Errors error other := other = error
  closures_mono _ h := h
  names_mono _ h := h
  nodes_mono _ h := h
  errors_same _ h := by rw [h]
  errors_unbound hspan h := by rw [hspan, h.2.1]
  nodes_matches := by
    rintro _ f n _ _ ⟨rfl, rfl, hfree⟩
    refine Node.matches_of_not_mentions (fun _ => rfl) (fun _ hne => ?_) (fun _ h => ?_)
      (fun _ _ h => ?_) (fun _ => rfl) hfree
    · exact ⟨rfl, rfl, hne⟩
    · exact ⟨rfl, rfl, h⟩
    · exact ⟨rfl, rfl, rfl, h⟩
  length_eq h := by rw [h.1]
  find? := by
    rintro _ S T f a _ _ h ⟨rfl, rfl, hne⟩
    rw [h.find?_eq hne]
    cases S.find? f a with
    | none => exact .none
    | some => exact .some ⟨rfl, rfl, hne⟩
  get? := by
    rintro _ S T f a _ _ h ⟨rfl, rfl, hne⟩
    rw [h.get?_eq hne]
    cases hvalue : S.get? f a with
    | none => exact .none
    | some x => exact .some (Value.related_eq_and_iff.mpr ⟨rfl, h.unmentioned f a x hvalue⟩)
  set := by
    rintro _ S T f a _ _ x y h ⟨rfl, rfl, hne⟩ hvalue
    obtain ⟨rfl, hnew⟩ := Value.related_eq_and_iff.mp hvalue
    exact h.set hne hnew
  made := by
    rintro _ S T f names body _ _ _ h ⟨rfl, rfl, rfl, hfree⟩
    exact ⟨by rw [h.agrees.closures]; rfl, hfree⟩
  count h := h.count
  enter := by
    rintro w S T c _ xs ys h ⟨rfl, hfree⟩ hvalues -
    obtain ⟨rfl, hclosures⟩ := Value.forall₂_related_eq_and hvalues
    -- A parameter may be the name: its frame is a new one and not the owner of the binding.
    exact ⟨w, le_rfl, h.enter hclosures, h.nextFrame_eq.symm, rfl, hfree⟩

namespace Store

/-- A binding of a name that neither the node nor a closure of the store mentions has no influence
on the evaluation of the node, whichever frame it is in and whatever it binds the name to.  The
answer is the same, and the binding is all that distinguishes the stores afterwards. -/
theorem eval_set_unmentioned {store : Store} {node : Node} {name : String} {owner : Nat}
    (hnode : ¬ node.Mentions name)
    (hstore : store.ForClosures fun closure => ¬ closure.body.Mentions name)
    (howner : owner < store.frames.size) (value : Value) (depth frame : Nat) :
    Option.Rel (fun first second =>
        first.1 = second.1 ∧ second.2.Agrees (first.2.set owner name value))
      (eval depth frame node store) (eval depth frame node (store.set owner name value)) := by
  have hstart : Spares owner name value store (store.set owner name value) :=
    ⟨howner, ⟨rfl, rfl, fun _ => rfl, fun _ _ => rfl⟩, hstore⟩
  have hruns : (sparing owner name value).Relates 0 (sparing owner name value).Values
      (eval depth frame node) (eval depth frame node) :=
    Simulation.eval_relates depth ⟨rfl, rfl, hnode⟩
  refine Option.rel_imp (hruns _ _ hstart) fun first second hanswers => ?_
  cases hanswers with
  | error _ hstores herror => exact ⟨congrArg Except.error herror.symm, hstores.agrees⟩
  | value _ hstores hvalue =>
    exact ⟨congrArg Except.ok (Value.related_eq_and_iff.mp hvalue).1, hstores.agrees⟩

/-- The form `(if (lambda () 0) 1 2)`. -/
def alternative : Node :=
  .list [.symbol "if" ⟨1, 3⟩,
    .list [.symbol "lambda" ⟨5, 11⟩, .list [] ⟨12, 14⟩, .number 0 ⟨15, 16⟩] ⟨4, 17⟩,
    .number 1 ⟨18, 19⟩, .number 2 ⟨20, 21⟩] ⟨0, 22⟩

/-- The closure that `(lambda () if)` makes in the first frame. -/
def mentionsIf : Value :=
  .procedure (.closure ⟨0, [], .symbol "if" ⟨11, 13⟩, 0⟩)

/-- The name `if` can be bound, even to a closure that mentions it, and the special form is what it
was. -/
theorem alternative_unmentioned :
    eval 2 0 alternative bare = some (.ok (.number 2), { bare with closures := 2 }) ∧
      ∃ after, eval 2 0 alternative (bare.set 0 "if" mentionsIf) = some (.ok (.number 2), after) ∧
        after.Agrees ({ bare with closures := 2 }.set 0 "if" mentionsIf) := by
  have hnode : ¬ alternative.Mentions "if" := by
    have hthunk : Eval.keyword? (.symbol "lambda" ⟨5, 11⟩) = some .lambda := by decide
    have hform : Eval.keyword? (.symbol "if" ⟨1, 3⟩) = some .if := by decide
    simp [alternative, Node.mentions_form_iff hform, Node.mentions_form_iff hthunk]
  have hbare : bare.ForClosures fun closure => ¬ closure.body.Mentions "if" :=
    ForClosures.empty.push (by simp [Bindings.get?])
  have hwithout : eval 2 0 alternative bare =
      some (.ok (.number 2), { bare with closures := 2 }) := by
    with_unfolding_all rfl
  have howner : 0 < bare.frames.size := by decide
  have hruns := eval_set_unmentioned hnode hbare howner mentionsIf 2 0
  rw [hwithout] at hruns
  refine ⟨hwithout, ?_⟩
  generalize eval 2 0 alternative (bare.set 0 "if" mentionsIf) = answer at hruns
  cases hruns with
  | @some _ second h =>
    obtain ⟨hvalue, hagrees⟩ := h
    exact ⟨second.2, congrArg some (Prod.ext hvalue.symm rfl), hagrees⟩

end Store
end TinyLisp
