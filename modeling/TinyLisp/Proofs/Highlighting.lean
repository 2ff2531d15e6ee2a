import TinyLisp.Proofs.Matching
import TinyLisp.Proofs.Parens

/-!
# Coloured parens

A line is shown with the `)` that belong to no paren in red and with the pair next to the cursor in
blue.  Both are said of the characters alone: `Parens.Stray` and `Parens.Active`.

* `Parens.Active.unique`: at most one pair is next to the cursor.
* `Highlight.Coloured`: what a line looks like, some of its characters in red and some in blue.
* `Highlight.highlight?_eq_some_iff`: this is what is shown.
* `Balance.scan_eq_stray_iff`: the first `)` in red is the one that counting parens stops at.
* `Reader.pairTokens`: the stack over tokens.  By `Reader.exists_list_of_matches`, parens that
  belong together are those of one list.
-/

namespace TinyLisp

open Text (byteSize)

namespace Parens

open Highlight (pairing isAt)

variable {chars : List Char} {cursor start stop offset : Nat}

/-! ## The pair next to the cursor -/

/-- The two parens belong together, and the cursor is just behind one of them. -/
def Active (chars : List Char) (cursor start stop : Nat) : Prop :=
  Matches chars start stop ∧ (cursor = start + 1 ∨ cursor = stop + 1)

/-- The offset is that of one of the two parens next to the cursor. -/
def ActiveAt (chars : List Char) (cursor offset : Nat) : Prop :=
  ∃ start stop, Active chars cursor start stop ∧ (offset = start ∨ offset = stop)

/-- The cursor is not behind two pairs at once: a `(` is no `)`. -/
theorem Active.unique {start' stop' : Nat} (h : Active chars cursor start stop)
    (hother : Active chars cursor start' stop') : start = start' ∧ stop = stop' := by
  obtain ⟨hmatches, hcursor⟩ := h
  obtain ⟨hmatches', hcursor'⟩ := hother
  have hopening : start ≠ stop' := by
    rintro rfl
    exact absurd (standsAt_unique hmatches.opening hmatches'.closing) (by decide)
  have hclosing : stop ≠ start' := by
    rintro rfl
    exact absurd (standsAt_unique hmatches.closing hmatches'.opening) (by decide)
  -- So both are behind the opening paren, or both behind the closing one.
  by_cases hstart : start = start'
  · subst hstart
    exact ⟨rfl, hmatches.stop_unique hmatches'⟩
  · have hstop : stop = stop' := by omega
    subst hstop
    exact absurd (hmatches.start_unique hmatches') hstart

/-- A `)` that belongs to no `(` is not one of the pair next to the cursor. -/
theorem Stray.not_activeAt (h : Stray chars offset) : ¬ ActiveAt chars cursor offset := by
  rintro ⟨start, stop, ⟨hmatches, -⟩, rfl | rfl⟩
  · exact absurd (standsAt_unique h.1 hmatches.opening) (by decide)
  · exact h.2 start hmatches

/-- The pair that is looked for is found. -/
theorem find?_pairs_eq_some_iff :
    (pairing 0 [] chars).pairs.find? (isAt cursor) = some (start, stop) ↔
      Active chars cursor start stop := by
  have hfound : ∀ start stop,
      (pairing 0 [] chars).pairs.find? (isAt cursor) = some (start, stop) →
        Active chars cursor start stop := by
    intro start stop hfind
    have hat := List.find?_some hfind
    refine ⟨(mem_pairs_iff chars).mp (List.mem_of_find?_eq_some hfind), ?_⟩
    simpa [isAt] using hat
  constructor
  · intro hfind
    exact hfound start stop hfind
  · intro hactive
    have hsome : ((pairing 0 [] chars).pairs.find? (isAt cursor)).isSome := by
      rw [List.find?_isSome]
      exact ⟨(start, stop), (mem_pairs_iff chars).mpr hactive.1, by simpa [isAt] using hactive.2⟩
    obtain ⟨⟨start', stop'⟩, hfind⟩ := Option.isSome_iff_exists.mp hsome
    obtain ⟨rfl, rfl⟩ := hactive.unique (hfound start' stop' hfind)
    exact hfind

end Parens

/-! ## Colours -/

namespace Highlight

open Parens

/-- The text is the characters from the offset on, one after the other: those at the red offsets in
red, those at the blue offsets in blue, and every other one as it is. -/
inductive Coloured (reds blues : Nat → Prop) : Nat → List Char → String → Prop where
  | nil {pos} : Coloured reds blues pos [] ""
  | red {pos c rest out} (hred : reds pos)
      (hrest : Coloured reds blues (pos + c.utf8Size) rest out) :
      Coloured reds blues pos (c :: rest) (Highlight.red c ++ out)
  | blue {pos c rest out} (hblue : blues pos)
      (hrest : Coloured reds blues (pos + c.utf8Size) rest out) :
      Coloured reds blues pos (c :: rest) (Highlight.blue c ++ out)
  | plain {pos c rest out} (hred : ¬ reds pos) (hblue : ¬ blues pos)
      (hrest : Coloured reds blues (pos + c.utf8Size) rest out) :
      Coloured reds blues pos (c :: rest) (c.toString ++ out)

variable {reds blues : Nat → Prop} {pos cursor : Nat} {chars : List Char} {line out other : String}

/-- If no character has two colours, then there is no choice. -/
theorem Coloured.unique (hdisjoint : ∀ offset, reds offset → ¬ blues offset)
    (h : Coloured reds blues pos chars out) (hother : Coloured reds blues pos chars other) :
    out = other := by
  induction h generalizing other with
  | nil =>
    cases hother
    rfl
  | red hred _ ih =>
    cases hother with
    | red _ hrest => rw [ih hrest]
    | blue hblue _ => exact absurd hblue (hdisjoint _ hred)
    | plain hnot _ _ => exact absurd hred hnot
  | blue hblue _ ih =>
    cases hother with
    | red hred _ => exact absurd hblue (hdisjoint _ hred)
    | blue _ hrest => rw [ih hrest]
    | plain _ hnot _ => exact absurd hblue hnot
  | plain hred hblue _ ih =>
    cases hother with
    | red h _ => exact absurd h hred
    | blue h _ => exact absurd h hblue
    | plain _ _ hrest => rw [ih hrest]

theorem coloured_paint {strays : List Nat} {active : Option (Nat × Nat)}
    (hreds : ∀ offset, offset ∈ strays ↔ reds offset)
    (hblues : ∀ offset, (∃ start stop, active = some (start, stop) ∧
      (offset = start ∨ offset = stop)) ↔ blues offset) (pos : Nat) (chars : List Char) :
    Coloured reds blues pos chars (paint strays active pos chars) := by
  induction chars generalizing pos with
  | nil => exact .nil
  | cons c rest ih =>
    have hrest := ih (pos + c.utf8Size)
    unfold paint
    by_cases hred : pos ∈ strays
    · simp only [List.contains_iff_mem, hred, if_true]
      exact .red ((hreds pos).mp hred) hrest
    · have hplain : ¬ reds pos := fun h => hred ((hreds pos).mpr h)
      simp only [List.contains_iff_mem, hred, if_false]
      cases active with
      | none => exact .plain hplain (by simp [← hblues pos]) hrest
      | some pair =>
        by_cases hblue : pos = pair.1 ∨ pos = pair.2
        · simp only [Bool.or_eq_true, decide_eq_true_eq, hblue, if_true]
          exact .blue ((hblues pos).mp ⟨pair.1, pair.2, rfl, hblue⟩) hrest
        · simp only [Bool.or_eq_true, decide_eq_true_eq, hblue, if_false]
          refine .plain hplain ?_ hrest
          rw [← hblues pos]
          rintro ⟨start, stop, ⟨⟩, hat⟩
          exact hblue hat

/-- Nothing in the line is to be coloured. -/
def Plain (line : String) (cursor : Nat) : Prop :=
  (∀ offset, ¬ Stray line.toList offset) ∧ ∀ start stop, ¬ Active line.toList cursor start stop

theorem isNone_and_isEmpty_iff :
    (((pairing 0 [] line.toList).pairs.find? (isAt cursor)).isNone &&
      (pairing 0 [] line.toList).strays.isEmpty) = true ↔ Plain line cursor := by
  rw [Bool.and_eq_true, Option.isNone_iff_eq_none, List.isEmpty_iff, and_comm, Plain]
  refine and_congr ?_ ?_
  · simp only [List.eq_nil_iff_forall_not_mem, mem_strays_iff]
  · simp only [Option.eq_none_iff_forall_ne_some, Prod.forall, ne_eq, find?_pairs_eq_some_iff]

theorem highlight?_of_plain (h : Plain line cursor) : highlight? line cursor = none :=
  if_pos (isNone_and_isEmpty_iff.mpr h)

theorem highlight?_of_not_plain (h : ¬ Plain line cursor) :
    ∃ out, highlight? line cursor = some out ∧
      Coloured (Stray line.toList) (ActiveAt line.toList cursor) 0 line.toList out := by
  refine ⟨_, if_neg (mt isNone_and_isEmpty_iff.mp h), coloured_paint ?_ ?_ 0 line.toList⟩
  · intro offset
    exact mem_strays_iff line.toList offset
  · intro offset
    simp only [find?_pairs_eq_some_iff, ActiveAt]

theorem highlight?_eq_none_iff : highlight? line cursor = none ↔ Plain line cursor := by
  refine ⟨fun hnone => ?_, highlight?_of_plain⟩
  by_contra hcoloured
  obtain ⟨out, hsome, -⟩ := highlight?_of_not_plain hcoloured
  rw [hnone] at hsome
  cases hsome

theorem highlight?_eq_some_iff :
    highlight? line cursor = some out ↔ ¬ Plain line cursor ∧
      Coloured (Stray line.toList) (ActiveAt line.toList cursor) 0 line.toList out := by
  by_cases hplain : Plain line cursor
  · simp [highlight?_of_plain hplain, hplain]
  · obtain ⟨shown, hshown, hcoloured⟩ := highlight?_of_not_plain hplain
    rw [hshown, Option.some.injEq]
    constructor
    · rintro rfl
      exact ⟨hplain, hcoloured⟩
    · rintro ⟨-, hout⟩
      exact hcoloured.unique (fun offset => Stray.not_activeAt) hout

end Highlight

/-! ## The first stray paren -/

namespace Parens

open Highlight (pairing)

variable {pos offset : Nat} {opened : List Nat} {chars : List Char}

theorem le_of_mem_strays (h : offset ∈ (pairing pos opened chars).strays) : pos ≤ offset := by
  induction chars generalizing pos opened with
  | nil => cases h
  | cons c rest ih =>
    have hlater : ∀ {opened}, offset ∈ (pairing (pos + c.utf8Size) opened rest).strays →
        pos ≤ offset :=
      fun h => Nat.le_trans (Nat.le_add_right _ _) (ih h)
    unfold pairing at h
    split at h
    · exact hlater h
    · split at h
      · cases opened with
        | nil =>
          rcases List.mem_cons.mp h with rfl | h
          · exact Nat.le_refl _
          · exact hlater h
        | cons start outer => exact hlater h
      · exact hlater h

/-- The stray parens are found in order. -/
theorem pairwise_strays (pos : Nat) (opened : List Nat) (chars : List Char) :
    (pairing pos opened chars).strays.Pairwise (· < ·) := by
  induction chars generalizing pos opened with
  | nil => exact .nil
  | cons c rest ih =>
    unfold pairing
    split
    · exact ih _ _
    · split
      · cases opened with
        | nil =>
          refine .cons (fun offset h => ?_) (ih _ _)
          have hle := le_of_mem_strays h
          have hsize := c.utf8Size_pos
          omega
        | cons start outer => exact ih _ _
      · exact ih _ _

end Parens

namespace Balance

open Highlight (pairing)
open Parens (Stray)

/-- Counting the parens stops at the first of those that the stack finds. -/
theorem scan_eq_stray_iff (pos : Nat) (opened : List Nat) (chars : List Char) (offset : Nat) :
    scan pos opened.length chars = .stray offset ↔
      (pairing pos opened chars).strays.head? = some offset := by
  induction chars generalizing pos opened with
  | nil =>
    cases opened <;> simp [scan, pairing]
  | cons c rest ih =>
    by_cases hopening : c = '('
    · subst hopening
      exact ih _ (pos :: opened)
    · by_cases hclosing : c = ')'
      · subst hclosing
        cases opened with
        | nil => simp [scan, pairing]
        | cons start outer => exact ih _ outer
      · simp [scan, pairing, hopening, hclosing, ih]

/-- If there is a stray paren, then there is a first one, and it is that of the text's balance. -/
theorem exists_first_stray {text : String} {offset : Nat} (h : Stray text.toList offset) :
    ∃ first, Stray text.toList first ∧ (∀ other, Stray text.toList other → first ≤ other) ∧
      ofText text = .stray first := by
  have hmem := (Parens.mem_strays_iff text.toList offset).mpr h
  have hsorted := Parens.pairwise_strays 0 [] text.toList
  have hhead := scan_eq_stray_iff 0 [] text.toList
  have hstrays := Parens.mem_strays_iff text.toList
  cases hfound : (pairing 0 [] text.toList).strays with
  | nil =>
    rw [hfound] at hmem
    cases hmem
  | cons first later =>
    rw [hfound] at hsorted hhead hstrays
    refine ⟨first, (hstrays first).mp List.mem_cons_self, fun other hother => ?_, ?_⟩
    · rcases List.mem_cons.mp ((hstrays other).mpr hother) with rfl | hlater
      · exact Nat.le_refl _
      · exact Nat.le_of_lt ((List.pairwise_cons.mp hsorted).1 other hlater)
    · exact (hhead first).mpr rfl

end Balance

/-! ## Pairs of tokens -/

namespace Reader

open Highlight (pairing)
open Parens (Matches)
open Token (isAtomChar paren?)

variable {nodes : List Node} {node part : Node} {tokens rest : List Token} {opened : List Span}
  {opening closing : Span} {pos start stop : Nat} {chars : List Char} {text : String}

/-- The parens among the tokens that belong together, if `opened` are open in front of them. -/
def pairTokens (opened : List Span) : List Token → List (Span × Span)
  | [] => []
  | ⟨.opening, span⟩ :: rest => pairTokens (span :: opened) rest
  | ⟨.closing, span⟩ :: rest =>
    match opened with
    | [] => pairTokens [] rest
    | start :: outer => (start, span) :: pairTokens outer rest
  | ⟨.atom _, _⟩ :: rest => pairTokens opened rest

/-- Where a paren stands: it takes one byte. -/
def parenAt (offset : Nat) : Span :=
  ⟨offset, offset + 1⟩

theorem pairing_of_paren?_eq_none {c : Char} (h : paren? c = none) (opened : List Nat) :
    pairing pos opened (c :: chars) = pairing (pos + c.utf8Size) opened chars := by
  obtain ⟨hopening, hclosing⟩ := Token.paren?_eq_none_iff.mp h
  simp [pairing, hopening, hclosing]

theorem pairing_append_of_isAtomChar {word : List Char} (h : ∀ c ∈ word, isAtomChar c = true)
    (opened : List Nat) :
    pairing pos opened (word ++ chars) = pairing (pos + byteSize word) opened chars := by
  induction word generalizing pos with
  | nil => rfl
  | cons c later ih =>
    have hc := Token.paren?_eq_none_of_isAtomChar (h c List.mem_cons_self)
    rw [List.cons_append, pairing_of_paren?_eq_none hc,
      ih fun d hd => h d (List.mem_cons_of_mem _ hd)]
    simp [byteSize, Nat.add_assoc]

/-- The parens of characters belong together as their tokens do. -/
theorem pairTokens_of_lexes (h : Lexes pos chars tokens) (opened : List Nat) :
    pairTokens (opened.map parenAt) tokens =
      (pairing pos opened chars).pairs.map (Prod.map parenAt parenAt) := by
  induction h generalizing opened with
  | nil => rfl
  | blank hc _ ih => rw [ih, pairing_of_paren?_eq_none (Token.paren?_of_isBlank hc)]
  | @paren pos c kind rest tokens hc _ ih =>
    unfold paren? at hc
    split at hc
    · cases hc
      subst_vars
      exact ih (pos :: opened)
    · split at hc
      · cases hc
        subst_vars
        cases opened with
        | nil => exact ih []
        | cons start outer => exact congrArg _ (ih outer)
      · cases hc
  | word _ hword _ _ ih => rw [pairing_append_of_isAtomChar hword, pairTokens, ih]

/-- Parens that belong together are those of a list, if the tokens are those of nodes. -/
theorem Spells.exists_list_of_mem_pairTokens (h : Spells nodes tokens)
    (hmem : (opening, closing) ∈ pairTokens opened (tokens ++ rest)) :
    (∃ children, ∃ node ∈ nodes, (Node.list children (opening.merge closing)).Part node) ∨
      (opening, closing) ∈ pairTokens opened rest := by
  induction h generalizing opened rest with
  | nil => exact .inr hmem
  | atom _ ih =>
    rcases ih hmem with ⟨children, node, hnode, hpart⟩ | hlater
    · exact .inl ⟨children, node, List.mem_cons_of_mem _ hnode, hpart⟩
    · exact .inr hlater
  | @list inside nodes inner tokens first last _ _ ihinner ih =>
    -- The pair is one of a child, or that of the list itself, or it is further on.
    rw [List.cons_append, List.append_assoc, List.cons_append, pairTokens] at hmem
    rcases ihinner hmem with ⟨children, node, hnode, hpart⟩ | hmem
    · exact .inl ⟨children, _, List.mem_cons_self, .child hnode hpart⟩
    · rcases List.mem_cons.mp hmem with heq | hmem
      · cases heq
        exact .inl ⟨inside, _, List.mem_cons_self, .self⟩
      · rcases ih hmem with ⟨children, node, hnode, hpart⟩ | hlater
        · exact .inl ⟨children, node, List.mem_cons_of_mem _ hnode, hpart⟩
        · exact .inr hlater

/-- In a text that can be read, two parens that belong together are those of a list, and no other
node reaches from the one to the other. -/
theorem exists_list_of_matches (hparse : parse text = .ok nodes)
    (h : Matches text.toList start stop) :
    ∃ children, (∃ node ∈ nodes, (Node.list children ⟨start, stop + 1⟩).Part node) ∧
      ∀ node ∈ nodes, ∀ part : Node, part.Part node → part.span = ⟨start, stop + 1⟩ →
        part = .list children ⟨start, stop + 1⟩ := by
  have hlexes := lexes_tokenize text
  have hnodes := parse_eq_ok_iff.mp hparse
  rw [← List.append_nil (Token.tokenize text)] at hlexes
  have hpairs := pairTokens_of_lexes hlexes []
  rw [List.map_nil] at hpairs
  have hmem : (parenAt start, parenAt stop) ∈ pairTokens [] (Token.tokenize text ++ []) := by
    rw [hpairs]
    exact List.mem_map.mpr ⟨(start, stop), (Parens.mem_pairs_iff _).mpr h, rfl⟩
  have hspan : (parenAt start).merge (parenAt stop) = ⟨start, stop + 1⟩ := by
    have hlt := h.lt
    simp only [parenAt, Span.merge, Span.mk.injEq]
    omega
  rcases hnodes.exists_list_of_mem_pairTokens hmem with ⟨children, node, hnode, hlist⟩ | hnone
  · rw [hspan] at hlist
    refine ⟨children, ⟨node, hnode, hlist⟩, fun other hother part hpart hsame => ?_⟩
    obtain ⟨-, -, -, hslice⟩ := hnodes.exists_slice hlexes hnode hlist
    obtain ⟨-, -, -, hslice'⟩ := hnodes.exists_slice hlexes hother hpart
    exact hslice'.eq_of_span_eq hslice hsame
  · cases hnone

end Reader

/-! ## What is shown -/

namespace Highlight

open Parens

/-- The list of `é ((λ) ())`. -/
def outerList : Node :=
  .list [.list [.symbol "λ" ⟨5, 7⟩] ⟨4, 8⟩, .list [] ⟨9, 11⟩] ⟨3, 12⟩

/-- What `é ((λ) ())` is read as. -/
def letterAndList : List Node :=
  [.symbol "é" ⟨0, 2⟩, outerList]

example : highlight? "é(λ)) )" 3 =
    some ("é" ++ blue '(' ++ "λ" ++ blue ')' ++ red ')' ++ " " ++ red ')') := by decide +kernel

end Highlight

end TinyLisp
