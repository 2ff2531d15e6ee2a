import TinyLisp.Reader

/-!
# The grammar of expressions

`Spells nodes tokens` says that the tokens are exactly those of the nodes, written one after
the other.  It does not mention the stack of open lists with which the reader works.

* `Spells.readWithin_append`, `Spells.read_append` and `Spells.readAll_append`: the reader
  gives back the nodes that tokens spell, whatever comes after them.
* `Pending` and `Stuck`: what the reader has seen while a list is open, and what it stands in
  front of when it fails.
* `readWithin_eq_ok`, `readWithin_eq_error` and `readAll_spells`: what the reader gives is
  spelled by the tokens that it took, and it fails only where no node can be read.
-/

namespace TinyLisp.Reader

/-- The tokens are those of the nodes, one after the other. -/
inductive Spells : List Node → List Token → Prop where
  | nil : Spells [] []
  | atom {text span nodes tokens} (hrest : Spells nodes tokens) :
      Spells (Reader.atom text span :: nodes) (⟨.atom text, span⟩ :: tokens)
  | list {children nodes inner tokens opening closing} (hinner : Spells children inner)
      (hrest : Spells nodes tokens) :
      Spells (.list children (opening.merge closing) :: nodes)
        (⟨.opening, opening⟩ :: (inner ++ ⟨.closing, closing⟩ :: tokens))

namespace Spells

variable {nodes later : List Node} {node : Node} {tokens more rest : List Token}

theorem append (h : Spells nodes tokens) (hlater : Spells later more) :
    Spells (nodes ++ later) (tokens ++ more) := by
  induction h with
  | nil => exact hlater
  | atom _ ih => exact .atom ih
  | list hinner _ _ ih => simpa using Spells.list hinner ih

/-! ## What tokens spell is read -/

/-- Within an open list the reader adds the nodes that tokens spell to its children. -/
theorem readWithin_append (h : Spells nodes tokens) (list : OpenList) (lists : List OpenList)
    (rest : List Token) :
    readWithin (list :: lists) (tokens ++ rest) =
      readWithin ({ list with children := nodes.reverse ++ list.children } :: lists) rest := by
  induction h generalizing list lists rest with
  | nil => rfl
  | atom _ ih =>
    rw [List.cons_append, readWithin, ih]
    simp [OpenList.add]
  | list _ _ ihinner ih =>
    rw [List.cons_append, List.append_assoc, List.cons_append, readWithin, ihinner, readWithin, ih]
    simp [OpenList.add, OpenList.close]

/-- The reader takes exactly the tokens of one node from the front. -/
theorem read_append (h : Spells [node] tokens) (rest : List Token) :
    read (tokens ++ rest) = .ok (node, rest) := by
  cases h with
  | atom hnil =>
    cases hnil
    simp [read, readWithin]
  | list hinner hnil =>
    cases hnil
    simp [read, readWithin, hinner.readWithin_append, OpenList.close]

end Spells

theorem readAll_nil : readAll [] = ([], none) := by
  simp [readAll]

theorem readAll_of_read {node : Node} {tokens rest : List Token}
    (h : read tokens = .ok (node, rest)) :
    readAll tokens = (node :: (readAll rest).1, (readAll rest).2) := by
  have hlength := length_lt_of_read h
  have hne : tokens ≠ [] := by
    rintro rfl
    simp at hlength
  rw [readAll, if_neg (by simpa using hne)]
  split
  · simp_all
  · simp_all

theorem readAll_of_read_error {error : ReadError} {tokens : List Token} (hne : tokens ≠ [])
    (h : read tokens = .error error) : readAll tokens = ([], some error) := by
  rw [readAll, if_neg (by simpa using hne)]
  split
  · simp_all
  · simp_all

/-- Behind the tokens of some nodes the reader goes on as if they were not there. -/
theorem Spells.readAll_append {nodes : List Node} {tokens : List Token}
    (h : Spells nodes tokens) (rest : List Token) :
    readAll (tokens ++ rest) = (nodes ++ (readAll rest).1, (readAll rest).2) := by
  induction h with
  | nil => rfl
  | @atom text span nodes tokens hrest ih =>
    have hnode : Spells [Reader.atom text span] [⟨.atom text, span⟩] := .atom .nil
    have hread := hnode.read_append (tokens ++ rest)
    rw [List.singleton_append] at hread
    rw [List.cons_append, readAll_of_read hread, ih]
    rfl
  | @list children nodes inner tokens opening closing hinner hrest _ ih =>
    have hnode : Spells [.list children (opening.merge closing)]
        (⟨.opening, opening⟩ :: (inner ++ [⟨.closing, closing⟩])) := .list hinner .nil
    have hread := hnode.read_append (tokens ++ rest)
    rw [List.cons_append, List.append_assoc, List.singleton_append] at hread
    rw [List.cons_append, List.append_assoc, List.cons_append, readAll_of_read hread, ih]
    rfl

/-! ## What is read is spelled -/

/-- The tokens up to which the reader holds these open lists. -/
inductive Pending : List OpenList → List Token → Prop where
  | nil : Pending [] []
  | cons {list lists before inner} (houter : Pending lists before)
      (hchildren : Spells list.children.reverse inner) :
      Pending (list :: lists) (before ++ ⟨.opening, list.paren⟩ :: inner)

namespace Pending

variable {list : OpenList} {lists : List OpenList} {before tokens : List Token}

theorem push (h : Pending lists before) (paren : Span) :
    Pending (⟨paren, []⟩ :: lists) (before ++ [⟨.opening, paren⟩]) :=
  .cons h .nil

theorem add {node : Node} (h : Pending (list :: lists) before) (hnode : Spells [node] tokens) :
    Pending (list.add node :: lists) (before ++ tokens) := by
  cases h with
  | cons houter hchildren =>
    have hall := hchildren.append hnode
    rw [List.append_assoc, List.cons_append]
    exact .cons houter (by simpa [OpenList.add] using hall)

/-- The `)` of the innermost open list completes a node. -/
theorem close (h : Pending (list :: lists) before) (closing : Span) :
    ∃ outer inner, before = outer ++ inner ∧ Pending lists outer ∧
      Spells [list.close closing] (inner ++ [⟨.closing, closing⟩]) := by
  cases h with
  | cons houter hchildren =>
    refine ⟨_, _, rfl, houter, ?_⟩
    rw [List.cons_append]
    exact .list hchildren .nil

end Pending

/-- Why no node can be read in front of the tokens. -/
inductive Stuck : ReadError → List Token → Prop where
  | strayClose {span rest} : Stuck (.strayClose span) (⟨.closing, span⟩ :: rest)
  | unclosed {list lists tokens} (h : Pending (list :: lists) tokens) :
      Stuck (.unclosed list.paren) tokens

/-- What the reader reads is spelled by the tokens that it held and those that it took. -/
theorem readWithin_eq_ok {lists : List OpenList} {before tokens rest : List Token} {node : Node}
    (h : readWithin lists tokens = .ok (node, rest)) (hbefore : Pending lists before) :
    ∃ taken, tokens = taken ++ rest ∧ Spells [node] (before ++ taken) := by
  fun_induction readWithin lists tokens generalizing before with
  | case1 | case2 | case4 => cases h
  | case3 lists span tokens ih =>
    obtain ⟨taken, rfl, hnode⟩ := ih h (hbefore.push span)
    exact ⟨⟨.opening, span⟩ :: taken, rfl, by simpa using hnode⟩
  | case5 list span tokens =>
    cases h
    obtain ⟨outer, inner, rfl, houter, hnode⟩ := hbefore.close span
    cases houter
    exact ⟨[⟨.closing, span⟩], rfl, by simpa using hnode⟩
  | case6 list outer lists span tokens ih =>
    obtain ⟨outer, inner, rfl, houter, hclosed⟩ := hbefore.close span
    obtain ⟨taken, rfl, hnode⟩ := ih h (houter.add hclosed)
    exact ⟨⟨.closing, span⟩ :: taken, rfl, by simpa using hnode⟩
  | case7 text span tokens =>
    cases h
    cases hbefore
    exact ⟨[⟨.atom text, span⟩], rfl, .atom .nil⟩
  | case8 list lists text span tokens ih =>
    obtain ⟨taken, rfl, hnode⟩ := ih h (hbefore.add (.atom .nil))
    exact ⟨⟨.atom text, span⟩ :: taken, rfl, by simpa using hnode⟩

/-- If the reader fails, then it is because no node can be read in front of the tokens that it
held and those that were left. -/
theorem readWithin_eq_error {lists : List OpenList} {before tokens : List Token}
    {error : ReadError} (h : readWithin lists tokens = .error error)
    (hbefore : Pending lists before) (hne : before ++ tokens ≠ []) :
    Stuck error (before ++ tokens) := by
  fun_induction readWithin lists tokens generalizing before with
  | case1 =>
    cases hbefore
    exact absurd rfl hne
  | case2 =>
    cases h
    rw [List.append_nil]
    exact .unclosed hbefore
  | case3 lists span tokens ih => simpa using ih h (hbefore.push span) (by simp)
  | case4 =>
    cases h
    cases hbefore
    exact .strayClose
  | case5 | case7 => cases h
  | case6 list outer lists span tokens ih =>
    obtain ⟨outer, inner, rfl, houter, hclosed⟩ := hbefore.close span
    simpa using ih h (houter.add hclosed) (by simp)
  | case8 list lists text span tokens ih => simpa using ih h (hbefore.add (.atom .nil)) (by simp)

/-- Tokens are those of the nodes that are read, up to the tokens in front of which the
reader fails if it does. -/
theorem readAll_spells (tokens : List Token) :
    ∃ taken rest, tokens = taken ++ rest ∧ Spells (readAll tokens).1 taken ∧
      match (readAll tokens).2 with
      | none => rest = []
      | some error => Stuck error rest := by
  fun_induction readAll tokens with
  | case1 tokens hempty => exact ⟨[], [], by simpa using hempty, .nil, rfl⟩
  | case2 tokens hempty error hread =>
    have hne : tokens ≠ [] := by simpa using hempty
    exact ⟨[], tokens, rfl, .nil, readWithin_eq_error hread .nil hne⟩
  | case3 tokens hempty node rest hread _ nodes error hrest ih =>
    obtain ⟨first, rfl, hnode⟩ := readWithin_eq_ok hread .nil
    obtain ⟨taken, left, rfl, hnodes, hleft⟩ := ih
    rw [hrest] at hnodes hleft
    exact ⟨first ++ taken, left, by simp, hnode.append hnodes, hleft⟩

/-- Every token is read, without a fault, exactly if the tokens are those of the nodes. -/
theorem readAll_eq_none_iff {tokens : List Token} {nodes : List Node} :
    readAll tokens = (nodes, none) ↔ Spells nodes tokens := by
  constructor
  · intro h
    obtain ⟨taken, rest, htokens, hnodes, hrest⟩ := readAll_spells tokens
    rw [h] at hnodes hrest
    rw [htokens, hrest, List.append_nil]
    exact hnodes
  · intro h
    have hall := h.readAll_append []
    rw [List.append_nil, readAll_nil] at hall
    simpa using hall

/-- A text has no fault exactly if its tokens are those of nodes. -/
theorem parse_eq_ok_iff {text : String} {nodes : List Node} :
    parse text = .ok nodes ↔ Spells nodes (Token.tokenize text) := by
  rw [← readAll_eq_none_iff, parse]
  split <;> simp_all

/-! ## Faults -/

theorem Stuck.mem {error : ReadError} {tokens : List Token} (h : Stuck error tokens) :
    (∃ span, error = .strayClose span ∧ ⟨.closing, span⟩ ∈ tokens) ∨
      ∃ span, error = .unclosed span ∧ ⟨.opening, span⟩ ∈ tokens := by
  cases h with
  | strayClose => exact .inl ⟨_, rfl, by simp⟩
  | unclosed hpending =>
    cases hpending with
    | cons => exact .inr ⟨_, rfl, by simp⟩

/-- The fault of tokens is a `)` or a `(` among them. -/
theorem mem_of_readAll {tokens : List Token} {error : ReadError}
    (h : (readAll tokens).2 = some error) :
    (∃ span, error = .strayClose span ∧ ⟨.closing, span⟩ ∈ tokens) ∨
      ∃ span, error = .unclosed span ∧ ⟨.opening, span⟩ ∈ tokens := by
  obtain ⟨taken, rest, htokens, _, hrest⟩ := readAll_spells tokens
  rw [h] at hrest
  rcases Stuck.mem hrest with ⟨span, herror, hmem⟩ | ⟨span, herror, hmem⟩
  · exact .inl ⟨span, herror, htokens ▸ List.mem_append_right _ hmem⟩
  · exact .inr ⟨span, herror, htokens ▸ List.mem_append_right _ hmem⟩

end TinyLisp.Reader
