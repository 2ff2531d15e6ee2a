import TinyLisp.Proofs.Grammar

/-!
# Parts and spans of nodes

`Node.Part` says that a node occurs in another, at any depth.  `Node.respan` puts other spans
in the place of those of a node and leaves everything else as it is.

`Node.rename` does so with its names.

There are four groups.

* Induction over nodes, and their parts.
* New spans for nodes: the text of a node, its name and its parts.
* New names for nodes.
* New spans for tokens: if `Span.merge` is kept, the reader gives nodes with the new spans.
-/

namespace TinyLisp

namespace Node

/-! ## Parts -/

/-- To prove something of every node, prove it of a list whose children have it. -/
@[induction_eliminator]
theorem induction {motive : Node → Prop} (number : ∀ value span, motive (.number value span))
    (symbol : ∀ name span, motive (.symbol name span))
    (list : ∀ children span, (∀ child ∈ children, motive child) → motive (.list children span)) :
    ∀ node, motive node
  | .number value span => number value span
  | .symbol name span => symbol name span
  | .list children span =>
    list children span fun child _ => induction number symbol list child

/-- The first node occurs in the second. -/
inductive Part : Node → Node → Prop where
  | self {node} : Part node node
  | child {part child children span} (hmem : child ∈ children) (hpart : Part part child) :
      Part part (.list children span)

theorem Part.trans {a b c : Node} (hab : a.Part b) (hbc : b.Part c) : a.Part c := by
  induction hbc with
  | self => exact hab
  | child hmem _ ih => exact .child hmem ih

theorem Part.of_mem {child : Node} {children : List Node} {span : Span} (h : child ∈ children) :
    child.Part (.list children span) :=
  .child h .self

/-! ## New spans -/

/-- The node with `g` applied to each span in it. -/
def respan (g : Span → Span) : Node → Node
  | .number value span => .number value (g span)
  | .symbol name span => .symbol name (g span)
  | .list children span => .list (children.map (respan g)) (g span)

variable {f g : Span → Span} {node : Node}

@[simp] theorem respan_number (value : Float) (span : Span) :
    (number value span).respan g = .number value (g span) := by
  rw [respan]

@[simp] theorem respan_symbol (name : String) (span : Span) :
    (symbol name span).respan g = .symbol name (g span) := by
  rw [respan]

@[simp] theorem respan_list (children : List Node) (span : Span) :
    (list children span).respan g = .list (children.map (respan g)) (g span) := by
  rw [respan]

@[simp] theorem span_respan : (node.respan g).span = g node.span := by
  cases node <;> simp [span]

theorem respan_respan : (node.respan f).respan g = node.respan (g ∘ f) := by
  induction node with
  | number | symbol => simp
  | list children span ih =>
    simp only [respan_list, List.map_map, Function.comp_apply, Node.list.injEq, and_true]
    exact List.map_congr_left ih

theorem respan_id : node.respan id = node := by
  induction node with
  | number | symbol => simp
  | list children span ih =>
    rw [respan_list, List.map_congr_left ih, List.map_id']
    rfl

/-- The parts of a node with new spans are the parts with new spans. -/
theorem part_respan_iff {part : Node} :
    part.Part (node.respan g) ↔ ∃ old : Node, old.Part node ∧ part = old.respan g := by
  constructor
  · intro h
    induction node with
    | number | symbol =>
      simp only [respan_number, respan_symbol] at h
      cases h
      exact ⟨_, .self, by simp⟩
    | list children span ih =>
      rw [respan_list] at h
      cases h with
      | self => exact ⟨_, .self, (respan_list ..).symm⟩
      | child hmem hpart =>
        obtain ⟨child, hchild, rfl⟩ := List.mem_map.mp hmem
        obtain ⟨old, hold, rfl⟩ := ih child hchild hpart
        exact ⟨old, .child hchild hold, rfl⟩
  · rintro ⟨old, hold, rfl⟩
    induction hold with
    | self => exact .self
    | child hmem _ ih =>
      rw [respan_list]
      exact .child (List.mem_map_of_mem hmem) ih

theorem renderAll_eq_intercalate (nodes : List Node) :
    renderAll nodes = String.intercalate " " (nodes.map render) := by
  induction nodes with
  | nil => simp [renderAll]
  | cons node rest ih =>
    cases rest with
    | nil => simp [renderAll]
    | cons next rest => simp [renderAll, ih, String.intercalate_cons_cons]

/-- The text of a node has no regard to spans. -/
@[simp] theorem render_respan : (node.respan g).render = node.render := by
  induction node with
  | number | symbol => simp [render]
  | list children span ih =>
    have hall : children.map (render ∘ respan g) = children.map render := List.map_congr_left ih
    simp only [respan_list, render, renderAll_eq_intercalate, List.map_map, hall]

/-! ## New names -/

/-- The node with `r` applied to each name in it. -/
def rename (r : String → String) : Node → Node
  | .number value span => .number value span
  | .symbol name span => .symbol (r name) span
  | .list children span => .list (children.map (rename r)) span

variable {r : String → String}

@[simp] theorem rename_number (value : Float) (span : Span) :
    (number value span).rename r = .number value span := by
  rw [rename]

@[simp] theorem rename_symbol (name : String) (span : Span) :
    (symbol name span).rename r = .symbol (r name) span := by
  rw [rename]

@[simp] theorem rename_list (children : List Node) (span : Span) :
    (list children span).rename r = .list (children.map (rename r)) span := by
  rw [rename]

@[simp] theorem span_rename : (node.rename r).span = node.span := by
  cases node <;> simp [span]

@[simp] theorem rename_id : node.rename id = node := by
  induction node with
  | number | symbol => simp
  | list children span ih => rw [rename_list, List.map_congr_left ih, List.map_id']

end Node

/-! ## New spans for tokens -/

/-- The token with `g` applied to its span. -/
def Token.respan (g : Span → Span) (token : Token) : Token :=
  { token with span := g token.span }

/-- The error with `g` applied to the span of the paren at fault. -/
def ReadError.respan (g : Span → Span) : ReadError → ReadError
  | endOfInput => endOfInput
  | strayClose span => strayClose (g span)
  | unclosed span => unclosed (g span)

namespace Reader

variable {g : Span → Span}

theorem atom_respan (text : String) (span : Span) :
    (atom text span).respan g = atom text (g span) := by
  unfold atom
  split <;> simp

@[simp] theorem span_atom (text : String) (span : Span) : (atom text span).span = span := by
  unfold atom
  split <;> rfl

/-- An atom has no part but itself. -/
theorem eq_atom_of_part {part : Node} {text : String} {span : Span}
    (h : part.Part (atom text span)) : part = atom text span := by
  unfold atom at h ⊢
  split at h <;> cases h <;> rfl

/-- The open list with `g` applied to each span in it. -/
def OpenList.respan (g : Span → Span) (list : OpenList) : OpenList :=
  ⟨g list.paren, list.children.map (Node.respan g)⟩

theorem OpenList.add_respan (list : OpenList) (child : Node) :
    (list.add child).respan g = (list.respan g).add (child.respan g) := rfl

theorem OpenList.close_respan (hg : ∀ a b, g (a.merge b) = (g a).merge (g b)) (list : OpenList)
    (closing : Span) : (list.close closing).respan g = (list.respan g).close (g closing) := by
  simp [close, respan, hg]

theorem readWithin_respan (hg : ∀ a b, g (a.merge b) = (g a).merge (g b))
    (lists : List OpenList) (tokens : List Token) :
    readWithin (lists.map (OpenList.respan g)) (tokens.map (Token.respan g)) =
      match readWithin lists tokens with
      | .ok (node, rest) => .ok (node.respan g, rest.map (Token.respan g))
      | .error error => .error (error.respan g) := by
  fun_induction readWithin lists tokens with
  | case1 | case2 | case4 =>  simp [readWithin, ReadError.respan, Token.respan, OpenList.respan]
  | case3 lists span tokens ih => simpa [readWithin, Token.respan, OpenList.respan] using ih
  | case5 list span tokens => simp [readWithin, Token.respan, OpenList.close_respan hg]
  | case6 list outer lists span tokens ih =>
    simpa [readWithin, Token.respan, OpenList.close_respan hg, OpenList.add_respan] using ih
  | case7 text span tokens => simp [readWithin, Token.respan, atom_respan]
  | case8 list lists text span tokens ih =>
    simpa [readWithin, Token.respan, atom_respan, OpenList.add_respan] using ih

/-- Tokens with new spans are read as nodes with new spans. -/
theorem readAll_respan (hg : ∀ a b, g (a.merge b) = (g a).merge (g b)) (tokens : List Token) :
    readAll (tokens.map (Token.respan g)) =
      ((readAll tokens).1.map (Node.respan g), (readAll tokens).2.map (ReadError.respan g)) := by
  fun_induction readAll tokens with
  | case1 tokens hempty =>
    rw [List.isEmpty_iff.mp hempty]
    simp [readAll]
  | case2 tokens hempty error hread =>
    have hfirst := readWithin_respan hg [] tokens
    rw [show readWithin [] tokens = _ from hread] at hfirst
    rw [readAll_of_read_error (by simpa using hempty) hfirst]
    rfl
  | case3 tokens hempty node rest hread _ nodes error hrest ih =>
    have hfirst := readWithin_respan hg [] tokens
    rw [show readWithin [] tokens = _ from hread] at hfirst
    rw [readAll_of_read hfirst, ih, hrest]
    rfl

/-- A node that is an atom among the tokens, or a list from one paren among them to another. -/
inductive MadeOf (tokens : List Token) : Node → Prop where
  | atom {text span} (hatom : ⟨.atom text, span⟩ ∈ tokens) : MadeOf tokens (Reader.atom text span)
  | list {children opening closing} (hopening : ⟨.opening, opening⟩ ∈ tokens)
      (hclosing : ⟨.closing, closing⟩ ∈ tokens) :
      MadeOf tokens (.list children (opening.merge closing))

theorem MadeOf.mono {tokens more : List Token} {node : Node} (h : MadeOf tokens node)
    (hsubset : tokens ⊆ more) : MadeOf more node := by
  cases h with
  | atom hatom => exact .atom (hsubset hatom)
  | list hopening hclosing => exact .list (hsubset hopening) (hsubset hclosing)

section Spans

variable {tokens : List Token} {node : Node} {offset : Nat}

/-- What is made of tokens with spans that are not empty has a span that is not empty. -/
theorem MadeOf.start_lt_stop (h : MadeOf tokens node)
    (hlt : ∀ token ∈ tokens, token.span.start < token.span.stop) :
    node.span.start < node.span.stop := by
  cases h with
  | atom hatom => simpa using hlt _ hatom
  | list hopening hclosing =>
    have hopen := hlt _ hopening
    simp only [Node.span, Span.merge] at hopen ⊢
    omega

/-- What a node is made of ends no later than these tokens. -/
theorem MadeOf.stop_le (h : MadeOf tokens node)
    (hle : ∀ token ∈ tokens, token.span.stop ≤ offset) : node.span.stop ≤ offset := by
  cases h with
  | atom hatom => simpa using hle _ hatom
  | list hopening hclosing => exact Nat.max_le.mpr ⟨hle _ hopening, hle _ hclosing⟩

/-- What a node is made of begins no earlier than these tokens. -/
theorem MadeOf.le_start (h : MadeOf tokens node)
    (hle : ∀ token ∈ tokens, offset ≤ token.span.start) : offset ≤ node.span.start := by
  cases h with
  | atom hatom => simpa using hle _ hatom
  | list hopening hclosing => exact Nat.le_min.mpr ⟨hle _ hopening, hle _ hclosing⟩

end Spans

/-- Every part of the nodes that tokens spell is made of these tokens. -/
theorem Spells.madeOf {nodes : List Node} {tokens : List Token} (h : Spells nodes tokens)
    {node part : Node} (hmem : node ∈ nodes) (hpart : part.Part node) : MadeOf tokens part := by
  induction h generalizing node with
  | nil => simp at hmem
  | atom _ ih =>
    rcases List.mem_cons.mp hmem with rfl | hmem
    · rw [eq_atom_of_part hpart]
      exact .atom List.mem_cons_self
    · exact (ih hmem hpart).mono (List.subset_cons_self _ _)
  | list _ _ ihinner ih =>
    rcases List.mem_cons.mp hmem with rfl | hmem
    · cases hpart with
      | self => exact .list (by simp) (by simp)
      | child hchild hpart => exact (ihinner hchild hpart).mono fun _ hmem => by simp [hmem]
    · exact (ih hmem hpart).mono fun _ hmem => by simp [hmem]

end Reader

end TinyLisp
