import Mathlib.Data.List.Forall2
import TinyLisp.Proofs.Grammar

/-!
# Reading expressions one by one

`Spells [node] tokens` says that the tokens are one complete expression, that of `node`.  The
reader takes exactly one such expression from the front of its tokens, and it has no choice
which.

* `Spells.eq_of_append_eq`: no two complete expressions stand at the front of the same tokens.
* `spells_iff_flatten`: the tokens of some nodes are those of each one, put together.
* `Stuck.read_eq` and `Stuck.not_complete`: where the reader is stuck there is no expression.
* `Yields`: all that a reader yields until it has no more.  `yields_map_ok_iff` and `exists_stuck`
  say what that is, without a fault and with one.
* `reads_expressions`: what is accepted, and what is yielded.
-/

namespace TinyLisp.Reader

/-- The tokens are one expression. -/
def Complete (tokens : List Token) : Prop :=
  ∃ node, Spells [node] tokens

variable {node other : Node} {nodes : List Node} {tokens more rest left : List Token}

/-! ## One expression -/

theorem Spells.ne_nil (h : Spells [node] tokens) : tokens ≠ [] := by
  cases h <;> simp

/-- The reader takes the tokens of one expression from the front, and it fails only if there is
no such expression. -/
theorem read_eq_ok_iff :
    read tokens = .ok (node, rest) ↔ ∃ taken, tokens = taken ++ rest ∧ Spells [node] taken := by
  constructor
  · intro h
    exact readWithin_eq_ok h .nil
  · rintro ⟨taken, rfl, hnode⟩
    exact hnode.read_append rest

/-- No two complete expressions stand at the front of the same tokens. -/
theorem Spells.eq_of_append_eq (h : Spells [node] tokens) (hother : Spells [other] more)
    (heq : tokens ++ rest = more ++ left) : tokens = more := by
  have hread := h.read_append rest
  rw [heq, hother.read_append left] at hread
  cases hread
  exact List.append_cancel_right heq

/-! ## Several expressions -/

theorem spells_cons_iff :
    Spells (node :: nodes) tokens ↔
      ∃ first later, tokens = first ++ later ∧ Spells [node] first ∧ Spells nodes later := by
  constructor
  · intro h
    cases h with
    | atom hrest => exact ⟨[_], _, rfl, .atom .nil, hrest⟩
    | list hinner hrest => exact ⟨_ :: (_ ++ [_]), _, by simp, .list hinner .nil, hrest⟩
  · rintro ⟨first, later, rfl, hnode, hnodes⟩
    exact hnode.append hnodes

/-- The tokens of some nodes are the tokens of each one, put together. -/
theorem spells_iff_flatten :
    Spells nodes tokens ↔
      ∃ pieces, List.Forall₂ (fun node piece => Spells [node] piece) nodes pieces ∧
        tokens = pieces.flatten := by
  induction nodes generalizing tokens with
  | nil =>
    constructor
    · intro h
      cases h
      exact ⟨[], .nil, rfl⟩
    · rintro ⟨pieces, hpieces, rfl⟩
      cases hpieces
      exact .nil
  | cons node nodes ih =>
    rw [spells_cons_iff]
    constructor
    · rintro ⟨first, later, rfl, hnode, hnodes⟩
      obtain ⟨pieces, hpieces, rfl⟩ := ih.mp hnodes
      exact ⟨first :: pieces, .cons hnode hpieces, rfl⟩
    · rintro ⟨pieces, hpieces, rfl⟩
      cases hpieces with
      | cons hnode hpieces => exact ⟨_, _, rfl, hnode, ih.mpr ⟨_, hpieces, rfl⟩⟩

/-! ## Faults -/

/-- With the tokens in front that it has seen, the reader holds these open lists. -/
theorem Pending.readWithin_append {lists : List OpenList} (h : Pending lists tokens)
    (rest : List Token) : readWithin [] (tokens ++ rest) = readWithin lists rest := by
  induction h generalizing rest with
  | nil => rfl
  | cons _ hchildren ih =>
    rw [List.append_assoc, List.cons_append, ih, readWithin, hchildren.readWithin_append]
    simp

theorem Stuck.ne_nil {error : ReadError} (h : Stuck error tokens) : tokens ≠ [] := by
  cases h with
  | strayClose => simp
  | unclosed hpending =>
    cases hpending
    simp

theorem Stuck.read_eq {error : ReadError} (h : Stuck error tokens) :
    read tokens = .error error := by
  cases h with
  | strayClose => simp [read, readWithin]
  | unclosed hpending =>
    have hread := hpending.readWithin_append []
    rw [List.append_nil] at hread
    rw [read, hread, readWithin]

/-- Where the reader is stuck no complete expression stands in front. -/
theorem Stuck.not_complete {error : ReadError} (h : Stuck error (more ++ left)) :
    ¬ Complete more := by
  rintro ⟨node, hnode⟩
  have hread := h.read_eq
  rw [hnode.read_append left] at hread
  cases hread

/-! ## What is yielded -/

/-- A reader that holds the tokens yields the items one after the other and then no more.  What
it holds in the end comes last. -/
inductive Yields : List Token → List (Except ReadError Node) → List Token → Prop where
  | done {tokens : List Token} (h : next? tokens = none) : Yields tokens [] tokens
  | step {tokens rest last : List Token} {item items} (h : next? tokens = some (item, rest))
      (hrest : Yields rest items last) : Yields tokens (item :: items) last

theorem next?_eq_none_iff : next? tokens = none ↔ tokens = [] := by
  rw [next?]
  split
  · simp_all
  · split <;> simp_all

theorem next?_eq_ok_iff :
    next? tokens = some (.ok node, rest) ↔ read tokens = .ok (node, rest) := by
  rw [next?]
  split
  · simp_all [read, readWithin]
  · split <;> simp_all

theorem next?_eq_error_iff {error : ReadError} :
    next? tokens = some (.error error, rest) ↔
      tokens ≠ [] ∧ read tokens = .error error ∧ rest = [] := by
  rw [next?]
  split
  · simp_all
  · split
    · simp_all only [List.isEmpty_iff]
      constructor
      · rintro ⟨⟩
        exact ⟨‹_›, rfl, rfl⟩
      · rintro ⟨-, ⟨⟩, rfl⟩
        rfl
    · simp_all

/-- In front of other tokens, those of some nodes make the reader yield these nodes first. -/
theorem Spells.yields_append {items : List (Except ReadError Node)} (h : Spells nodes tokens)
    (hrest : Yields rest items left) : Yields (tokens ++ rest) (nodes.map .ok ++ items) left := by
  induction nodes generalizing tokens with
  | nil =>
    cases h
    exact hrest
  | cons node nodes ih =>
    obtain ⟨first, later, rfl, hnode, hnodes⟩ := spells_cons_iff.mp h
    have hread := hnode.read_append (later ++ rest)
    rw [List.append_assoc]
    exact .step (next?_eq_ok_iff.mpr hread) (ih hnodes)

/-- A reader that is stuck yields the fault and then holds nothing. -/
theorem Stuck.yields {error : ReadError} (h : Stuck error tokens) :
    Yields tokens [.error error] [] :=
  .step (next?_eq_error_iff.mpr ⟨h.ne_nil, h.read_eq, rfl⟩) (.done (next?_eq_none_iff.mpr rfl))

/-- A reader yields nodes and nothing else exactly if its tokens are those of the nodes. -/
theorem yields_map_ok_iff : Yields tokens (nodes.map .ok) [] ↔ Spells nodes tokens := by
  constructor
  · intro h
    induction nodes generalizing tokens with
    | nil =>
      cases h
      exact .nil
    | cons node nodes ih =>
      cases h with
      | step hnext hrest =>
        obtain ⟨taken, rfl, hnode⟩ := read_eq_ok_iff.mp (next?_eq_ok_iff.mp hnext)
        exact hnode.append (ih hrest)
  · intro h
    simpa using h.yields_append (.done (next?_eq_none_iff.mpr rfl))

/-- In front of the first fault stand the nodes that are yielded before it, and there the reader
is stuck. -/
theorem exists_stuck {error : ReadError} (h : (readAll tokens).2 = some error) :
    ∃ nodes taken left, tokens = taken ++ left ∧ Spells nodes taken ∧ Stuck error left ∧
      Yields tokens (nodes.map .ok ++ [.error error]) [] := by
  obtain ⟨taken, left, htokens, hnodes, hstuck⟩ := readAll_spells tokens
  rw [h] at hstuck
  have hyields := hnodes.yields_append (Stuck.yields hstuck)
  rw [← htokens] at hyields
  exact ⟨_, taken, left, htokens, hnodes, hstuck, hyields⟩

theorem exists_fault_of_not_spells (h : ¬ ∃ nodes, Spells nodes tokens) :
    ∃ error, (readAll tokens).2 = some error := by
  cases hfault : (readAll tokens).2 with
  | none => exact absurd ⟨_, readAll_eq_none_iff.mp (Prod.ext rfl hfault)⟩ h
  | some error => exact ⟨error, rfl⟩

/-! ## What is accepted -/

/-- The reader accepts exactly the expressions, and takes exactly one of them.  It takes some
tokens, and those and no others at the front are a complete expression.  Reading on, it yields
nodes and then no more exactly if its tokens are those of the nodes, put together.  Otherwise it
yields the nodes of the complete expressions at the front, then one fault and then no more, and it
holds no tokens in the end. -/
theorem reads_expressions (tokens : List Token) :
    (∀ node rest, read tokens = .ok (node, rest) ↔
      ∃ taken, tokens = taken ++ rest ∧ Spells [node] taken) ∧
    (∀ node taken rest, tokens = taken ++ rest → Spells [node] taken →
      taken ≠ [] ∧ ∀ more left, tokens = more ++ left → Complete more → more = taken) ∧
    (∀ nodes, Yields tokens (nodes.map .ok) [] ↔
      ∃ pieces, List.Forall₂ (fun node piece => Spells [node] piece) nodes pieces ∧
        tokens = pieces.flatten) ∧
    ((¬ ∃ nodes : List Node, Yields tokens (nodes.map .ok) []) →
      ∃ nodes taken left error, tokens = taken ++ left ∧ Spells nodes taken ∧
        (∀ more rest, left = more ++ rest → ¬ Complete more) ∧
        Yields tokens (nodes.map .ok ++ [.error error]) []) := by
  refine ⟨fun node rest => read_eq_ok_iff, ?_, ?_, ?_⟩
  · rintro node taken rest htokens hnode
    refine ⟨hnode.ne_nil, ?_⟩
    rintro more left hmore ⟨other, hother⟩
    exact hother.eq_of_append_eq hnode (hmore.symm.trans htokens)
  · intro nodes
    rw [yields_map_ok_iff, spells_iff_flatten]
  · intro hnone
    simp only [yields_map_ok_iff] at hnone
    obtain ⟨error, hfault⟩ := exists_fault_of_not_spells hnone
    obtain ⟨nodes, taken, left, htokens, hnodes, hstuck, hyields⟩ := exists_stuck hfault
    refine ⟨nodes, taken, left, error, htokens, hnodes, ?_, hyields⟩
    rintro more rest rfl
    exact hstuck.not_complete

/-- The tokens of a list, with spans that no text has. -/
def oddTokens : List Token :=
  [⟨.opening, ⟨7, 2⟩⟩, ⟨.atom "1", ⟨0, 0⟩⟩, ⟨.atom "1e", ⟨3, 1⟩⟩, ⟨.closing, ⟨4, 9⟩⟩]

/-- The list that they are. -/
def oddNode : Node :=
  .list [.number 1 ⟨0, 0⟩, .symbol "1e" ⟨3, 1⟩] ⟨4, 9⟩

theorem spells_oddNode : Spells [oddNode] oddTokens := by
  have hone : atom "1" ⟨0, 0⟩ = .number 1 ⟨0, 0⟩ := by rfl
  have hname : atom "1e" ⟨3, 1⟩ = .symbol "1e" ⟨3, 1⟩ := by rfl
  have hchildren := (@Spells.atom "1" ⟨0, 0⟩ _ _ (@Spells.atom "1e" ⟨3, 1⟩ _ _ .nil))
  rw [hone, hname] at hchildren
  exact @Spells.list _ _ _ _ ⟨7, 2⟩ ⟨4, 9⟩ hchildren .nil

/-- The same tokens with a paren behind them that closes nothing. -/
def strayTokens : List Token :=
  oddTokens ++ [⟨.closing, ⟨5, 5⟩⟩]

/-- The list at the front is the only expression there, and the paren behind it is a fault. -/
theorem reads_strayTokens :
    Spells [oddNode] oddTokens ∧
      (oddTokens ≠ [] ∧ ∀ more left, strayTokens = more ++ left → Complete more →
        more = oddTokens) ∧
      (¬ ∃ nodes : List Node, Yields strayTokens (nodes.map .ok) []) ∧
      ∃ nodes taken left error, strayTokens = taken ++ left ∧ Spells nodes taken ∧
        (∀ more rest, left = more ++ rest → ¬ Complete more) ∧
        Yields strayTokens (nodes.map .ok ++ [.error error]) [] := by
  obtain ⟨-, honly, -, hotherwise⟩ := reads_expressions strayTokens
  have hnone : ¬ ∃ nodes : List Node, Yields strayTokens (nodes.map .ok) [] := by
    rintro ⟨nodes, hyields⟩
    have hall := readAll_eq_none_iff.mpr (yields_map_ok_iff.mp hyields)
    rw [strayTokens, spells_oddNode.readAll_append,
      readAll_of_read_error (by simp) Stuck.strayClose.read_eq] at hall
    cases hall
  exact ⟨spells_oddNode, honly _ _ _ rfl spells_oddNode, hnone, hotherwise hnone⟩

end TinyLisp.Reader
