import TinyLisp.Proofs.Expressions
import TinyLisp.Proofs.Tokenization

/-!
# The text of a node

The span of a node is the range of text that it was read from.  Read alone, this piece of text gives
that node again and nothing else, moved to the front.

* `Lexes.exists_piece`: some of the tokens of a text, one behind the other, are the tokens of the
  piece of text from the first of them up to the last.  A word that ends at the end of the piece
  ends there in the whole text too.
* `Spells.exists_tokens_of_part`: the tokens of a part stand one behind the other.
* `Spells.span_eq`: a node begins where the first of its tokens begins, and ends where the last one
  does.
* `Spells.pairwise` and `Spells.inside`: nodes stand one behind the other, and inside of the list
  that they are the children of.
* `Reader.slices_of_yields`: the nodes of a text and their parts.
-/

namespace TinyLisp

open Text (byteSize)

variable {pos : Nat} {chars front rest before after : List Char}
  {earlier tokens later : List Token} {token first last : Token}

/-! ## Ranges of a text -/

/-- Two pieces at the front of the same characters that take as many bytes are the same. -/
theorem append_inj_of_byteSize_eq (h : front ++ rest = before ++ after)
    (hsize : byteSize front = byteSize before) : front = before ∧ rest = after := by
  obtain ⟨gap, rfl, rfl⟩ := exists_gap h (Nat.le_of_eq hsize)
  have hgap : gap = [] := by
    by_contra hne
    have hpos := byteSize_pos hne
    rw [Text.byteSize_append] at hsize
    omega
  simp [hgap]

namespace Span

variable {span : Span} {piece other : String}

/-- A range holds one text only. -/
theorem Covers.unique (h : span.Covers chars piece) (hother : span.Covers chars other) :
    other = piece := by
  obtain ⟨before, after, rfl, hstart, hstop⟩ := h
  obtain ⟨front, rest, hchars, hstart', hstop'⟩ := hother
  obtain ⟨rfl, htexts⟩ := append_inj_of_byteSize_eq hchars (by omega)
  obtain ⟨htext, -⟩ := append_inj_of_byteSize_eq htexts (by omega)
  exact String.toList_inj.mp htext.symm

theorem Covers.within (h : span.Covers chars piece) : span.Within chars := by
  obtain ⟨before, after, hchars, hstart, hstop⟩ := h
  refine ⟨by omega, ⟨before, _, hchars, hstart.symm⟩, before ++ piece.toList, after, ?_, ?_⟩
  · rw [hchars, List.append_assoc]
  · rw [Text.byteSize_append]
    omega

end Span

/-! ## Pieces of a text -/

theorem EndsWord.of_append (h : EndsWord (front ++ rest)) : EndsWord front := by
  cases front with
  | nil => exact endsWord_nil
  | cons c later => exact endsWord_cons (h c rfl)

/-- The tokens from some token on are those of the characters from its start on. -/
theorem Lexes.exists_front (h : Lexes pos chars (earlier ++ token :: later)) :
    ∃ front rest, chars = front ++ rest ∧ token.span.start = pos + byteSize front ∧
      Lexes token.span.start rest (token :: later) := by
  generalize htokens : earlier ++ token :: later = tokens at h
  induction h generalizing earlier with
  | nil => simp at htokens
  | @blank pos c _ _ _ _ ih =>
    obtain ⟨front, rest, rfl, hstart, hlexes⟩ := ih htokens
    exact ⟨c :: front, rest, rfl, by simp [hstart, byteSize, Nat.add_assoc], hlexes⟩
  | @paren pos c kind rest _ hc hrest ih =>
    cases earlier with
    | nil =>
      cases htokens
      exact ⟨[], _, rfl, rfl, .paren hc hrest⟩
    | cons _ earlier =>
      obtain ⟨front, rest, rfl, hstart, hlexes⟩ := ih (List.cons.inj htokens).2
      exact ⟨c :: front, rest, rfl, by simp [hstart, byteSize, Nat.add_assoc], hlexes⟩
  | @word pos word rest _ hne hword hend hrest ih =>
    cases earlier with
    | nil =>
      cases htokens
      exact ⟨[], _, rfl, rfl, .word hne hword hend hrest⟩
    | cons _ earlier =>
      obtain ⟨front, rest, rfl, hstart, hlexes⟩ := ih (List.cons.inj htokens).2
      exact ⟨word ++ front, rest, by simp,
        by simp [hstart, Text.byteSize_append, Nat.add_assoc], hlexes⟩

/-- The tokens up to some token are those of the characters up to its end. -/
theorem Lexes.exists_back (h : Lexes pos chars (earlier ++ token :: later)) :
    ∃ front rest, chars = front ++ rest ∧ token.span.stop = pos + byteSize front ∧
      Lexes pos front (earlier ++ [token]) := by
  generalize htokens : earlier ++ token :: later = tokens at h
  induction h generalizing earlier with
  | nil => simp at htokens
  | @blank pos c _ _ hc _ ih =>
    obtain ⟨front, rest, rfl, hstop, hlexes⟩ := ih htokens
    exact ⟨c :: front, rest, rfl, by simp [hstop, byteSize, Nat.add_assoc], .blank hc hlexes⟩
  | @paren pos c kind rest _ hc _ ih =>
    cases earlier with
    | nil =>
      cases htokens
      exact ⟨[c], rest, rfl, by simp [byteSize], .paren hc .nil⟩
    | cons _ earlier =>
      obtain ⟨rfl, htail⟩ := List.cons.inj htokens
      obtain ⟨front, rest, rfl, hstop, hlexes⟩ := ih htail
      exact ⟨c :: front, rest, rfl, by simp [hstop, byteSize, Nat.add_assoc], .paren hc hlexes⟩
  | @word pos word rest _ hne hword hend _ ih =>
    cases earlier with
    | nil =>
      cases htokens
      exact ⟨word, rest, rfl, rfl, .of_word pos hne hword⟩
    | cons _ earlier =>
      obtain ⟨rfl, htail⟩ := List.cons.inj htokens
      obtain ⟨front, rest, rfl, hstop, hlexes⟩ := ih htail
      exact ⟨word ++ front, rest, by simp,
        by simp [hstop, Text.byteSize_append, Nat.add_assoc], .word hne hword hend.of_append hlexes⟩

/-- Tokens one behind the other are those of the characters from the first up to the last. -/
theorem Lexes.exists_piece (h : Lexes pos chars (earlier ++ (tokens ++ later)))
    (hfirst : tokens.head? = some first) (hlast : tokens.getLast? = some last) :
    ∃ before piece after, chars = before ++ (piece ++ after) ∧
      first.span.start = pos + byteSize before ∧
      last.span.stop = first.span.start + byteSize piece ∧
      Lexes first.span.start piece tokens := by
  obtain ⟨others, rfl⟩ := List.head?_eq_some_iff.mp hfirst
  obtain ⟨inner, hinner⟩ := List.getLast?_eq_some_iff.mp hlast
  obtain ⟨before, rest, rfl, hstart, hrest⟩ := h.exists_front
  have htokens : first :: (others ++ later) = inner ++ last :: later := by
    rw [← List.cons_append, hinner, List.append_assoc, List.singleton_append]
  obtain ⟨piece, after, rfl, hstop, hpiece⟩ := (htokens ▸ hrest : Lexes _ _ _).exists_back
  exact ⟨before, piece, after, rfl, hstart, hstop, hinner ▸ hpiece⟩

/-! ## Tokens in order -/

/-- The first range begins before the second, and ends before it or where it begins. -/
def Span.Precedes (a b : Span) : Prop :=
  a.start < b.start ∧ a.stop ≤ b.start

/-- No token is empty, and they stand one behind the other. -/
structure InOrder (tokens : List Token) : Prop where
  start_lt_stop : ∀ token ∈ tokens, token.span.start < token.span.stop
  stop_le_start : tokens.Pairwise fun a b => a.span.stop ≤ b.span.start

theorem Lexes.inOrder (h : Lexes pos chars tokens) : InOrder tokens where
  start_lt_stop _ hmem := h.start_lt_stop hmem
  stop_le_start := h.ordered

theorem InOrder.sublist {more : List Token} (h : InOrder more) (hsub : tokens.Sublist more) :
    InOrder tokens where
  start_lt_stop token hmem := h.start_lt_stop token (hsub.subset hmem)
  stop_le_start := h.stop_le_start.sublist hsub

namespace Reader

variable {node part : Node} {nodes : List Node}

/-- Nodes that are read from a piece of text are read from it alone, moved to the front. -/
theorem parse_of_lexes {piece : List Char} (h : Lexes pos piece tokens)
    (hnodes : Spells nodes tokens) :
    ∃ again, parse (String.ofList piece) = .ok again ∧
      again.map (Node.respan (Span.shift pos)) = nodes := by
  have hshift := (lexes_tokenize (String.ofList piece)).shift pos
  rw [Nat.zero_add, String.toList_ofList] at hshift
  have htokens := hshift.scan_eq.symm.trans h.scan_eq
  have hread := readAll_respan (Span.shift_merge pos) (Token.tokenize (String.ofList piece))
  rw [htokens, readAll_eq_none_iff.mpr hnodes] at hread
  obtain ⟨hagain, hfault⟩ := Prod.mk.inj hread
  refine ⟨_, parse_eq_ok_iff.mpr (readAll_eq_none_iff.mp (Prod.ext rfl ?_)), hagain.symm⟩
  exact Option.map_eq_none_iff.mp hfault.symm

/-! ## The tokens of a node -/

/-- The tokens of a part of a node are some of the tokens, one behind the other. -/
theorem Spells.exists_tokens_of_part (h : Spells nodes tokens) (hmem : node ∈ nodes)
    (hpart : part.Part node) :
    ∃ earlier mine later, tokens = earlier ++ (mine ++ later) ∧ Spells [part] mine := by
  induction h generalizing node with
  | nil => simp at hmem
  | @atom text span nodes tokens _ ih =>
    rcases List.mem_cons.mp hmem with rfl | hmem
    · rw [eq_atom_of_part hpart]
      exact ⟨[], [_], tokens, rfl, .atom .nil⟩
    · obtain ⟨earlier, mine, later, rfl, hmine⟩ := ih hmem hpart
      exact ⟨_ :: earlier, mine, later, rfl, hmine⟩
  | @list children nodes inner tokens opening closing hinner _ ihinner ih =>
    rcases List.mem_cons.mp hmem with rfl | hmem
    · cases hpart with
      | self =>
        refine ⟨[], ⟨.opening, opening⟩ :: (inner ++ [⟨.closing, closing⟩]), tokens, by simp, ?_⟩
        exact .list hinner .nil
      | child hchild hpart =>
        obtain ⟨earlier, mine, later, rfl, hmine⟩ := ihinner hchild hpart
        exact ⟨⟨.opening, opening⟩ :: earlier, mine, later ++ ⟨.closing, closing⟩ :: tokens,
          by simp, hmine⟩
    · obtain ⟨earlier, mine, later, rfl, hmine⟩ := ih hmem hpart
      exact ⟨⟨.opening, opening⟩ :: (inner ++ ⟨.closing, closing⟩ :: earlier), mine, later,
        by simp, hmine⟩

/-- A list reaches from its opening paren up to its closing one. -/
theorem merge_parens {opening closing : Token} {inner : List Token}
    (h : InOrder (opening :: (inner ++ [closing]))) :
    opening.span.merge closing.span = ⟨opening.span.start, closing.span.stop⟩ := by
  have hopening := h.start_lt_stop opening List.mem_cons_self
  have hclosing := h.start_lt_stop closing (by simp)
  have hle := (List.pairwise_cons.mp h.stop_le_start).1 closing (by simp)
  simp only [Span.merge, Span.mk.injEq]
  omega

/-- A node reaches from the first of its tokens up to the last. -/
theorem Spells.span_eq (h : Spells [node] tokens) (horder : InOrder tokens) :
    ∃ first last, tokens.head? = some first ∧ tokens.getLast? = some last ∧
      node.span = ⟨first.span.start, last.span.stop⟩ := by
  cases h with
  | atom hnil =>
    cases hnil
    exact ⟨_, _, rfl, rfl, span_atom ..⟩
  | @list _ _ inner _ opening closing hinner hnil =>
    cases hnil
    refine ⟨⟨.opening, opening⟩, ⟨.closing, closing⟩, rfl, ?_, merge_parens horder⟩
    exact List.getLast?_eq_some_iff.mpr ⟨⟨.opening, opening⟩ :: inner, rfl⟩

/-! ## Nodes beside and inside of each other -/

/-- Nodes stand one behind the other as their tokens do. -/
theorem Spells.pairwise (h : Spells nodes tokens) (horder : InOrder tokens) :
    nodes.Pairwise fun a b => a.span.Precedes b.span := by
  induction nodes generalizing tokens with
  | nil => exact .nil
  | cons node nodes ih =>
    obtain ⟨mine, others, rfl, hnode, hnodes⟩ := spells_cons_iff.mp h
    obtain ⟨-, -, hbetween⟩ := List.pairwise_append.mp horder.stop_le_start
    have hmine : InOrder mine := horder.sublist (List.sublist_append_left ..)
    have hothers : InOrder others := horder.sublist (List.sublist_append_right ..)
    have hmade := hnode.madeOf List.mem_cons_self .self
    refine .cons (fun other hother => ?_) (ih hnodes hothers)
    have hlt := hmade.start_lt_stop hmine.start_lt_stop
    have hle : node.span.stop ≤ other.span.start := by
      refine hmade.stop_le fun token htoken => ?_
      exact (hnodes.madeOf hother .self).le_start (hbetween token htoken)
    exact ⟨Nat.lt_of_lt_of_le hlt hle, hle⟩

theorem atom_ne_list {text : String} {span place : Span} {children : List Node} :
    atom text span ≠ .list children place := by
  unfold atom
  split <;> simp

/-- The children of a list stand between its parens, one behind the other. -/
theorem Spells.inside {children : List Node} {span : Span}
    (h : Spells [.list children span] tokens) (horder : InOrder tokens) :
    (∀ child ∈ children, span.start < child.span.start ∧ child.span.stop < span.stop) ∧
      children.Pairwise fun a b => a.span.Precedes b.span := by
  generalize hlist : Node.list children span = node at h
  cases h with
  | atom => exact absurd hlist.symm atom_ne_list
  | @list _ _ inner _ opening closing hinner hnil =>
    cases hlist
    cases hnil
    rw [merge_parens horder]
    have hopening := horder.start_lt_stop _ List.mem_cons_self
    have hclosing := horder.start_lt_stop ⟨.closing, closing⟩ (by simp)
    obtain ⟨hbehind, hordered⟩ := List.pairwise_cons.mp horder.stop_le_start
    obtain ⟨-, -, hbefore⟩ := List.pairwise_append.mp hordered
    refine ⟨fun child hmem => ⟨?_, ?_⟩, hinner.pairwise (horder.sublist ?_)⟩
    · have hle := (hinner.madeOf hmem .self).le_start fun token htoken =>
        hbehind token (List.mem_append_left _ htoken)
      exact Nat.lt_of_lt_of_le hopening hle
    · have hle := (hinner.madeOf hmem .self).stop_le fun token htoken =>
        hbefore token htoken _ List.mem_cons_self
      exact Nat.lt_of_le_of_lt hle hclosing
    · exact (List.sublist_append_left ..).cons _

/-! ## The nodes of a text -/

/-- The nodes that a reader yields first are those of the tokens in front of what it holds then. -/
theorem exists_spells_of_yields {items : List (Except ReadError Node)} {left : List Token}
    (h : Yields tokens (nodes.map .ok ++ items) left) :
    ∃ taken rest, tokens = taken ++ rest ∧ Spells nodes taken := by
  induction nodes generalizing tokens with
  | nil => exact ⟨[], tokens, rfl, .nil⟩
  | cons node nodes ih =>
    cases h with
    | step hnext hrest =>
      obtain ⟨mine, rfl, hnode⟩ := read_eq_ok_iff.mp (next?_eq_ok_iff.mp hnext)
      obtain ⟨taken, rest, rfl, hnodes⟩ := ih hrest
      exact ⟨mine ++ taken, rest, by simp, hnode.append hnodes⟩

/-- The node was read from the text at its span: this is a range of the text that is not empty, and
the piece of text there is read as that node alone, moved to the front. -/
structure IsSlice (text : String) (node : Node) : Prop where
  start_lt_stop : node.span.start < node.span.stop
  within : node.span.Within text.toList
  parse : ∃ piece again, (∀ other, node.span.Covers text.toList other ↔ other = piece) ∧
    Reader.parse piece = .ok [again] ∧ again.respan (Span.shift node.span.start) = node

theorem isSlice_of_lexes {text : String} (h : Lexes 0 text.toList (earlier ++ (tokens ++ later)))
    (hnode : Spells [node] tokens) (horder : InOrder tokens) : IsSlice text node := by
  obtain ⟨first, last, hfirst, hlast, hspan⟩ := hnode.span_eq horder
  obtain ⟨before, piece, after, hchars, hstart, hstop, hpiece⟩ := h.exists_piece hfirst hlast
  have hcovers : node.span.Covers text.toList (String.ofList piece) := by
    refine ⟨before, after, by rw [hchars, String.toList_ofList], ?_, ?_⟩
    · rw [hspan, hstart, Nat.zero_add]
    · rw [hspan, String.toList_ofList]
      exact hstop
  have hlt := (hnode.madeOf List.mem_cons_self .self).start_lt_stop horder.start_lt_stop
  refine ⟨hlt, hcovers.within, String.ofList piece, ?_⟩
  obtain ⟨again, hparse, hagain⟩ := parse_of_lexes hpiece hnode
  obtain ⟨only, rfl, honly⟩ := List.map_eq_singleton_iff.mp hagain
  refine ⟨only, fun other => ⟨hcovers.unique, ?_⟩, hparse, ?_⟩
  · rintro rfl
    exact hcovers
  · rw [hspan]
    exact honly

/-- A slice is given by its range. -/
theorem IsSlice.eq_of_span_eq {text : String} (h : IsSlice text node) (hpart : IsSlice text part)
    (hspan : node.span = part.span) : node = part := by
  obtain ⟨-, -, piece, again, hcovers, hparse, hagain⟩ := h
  obtain ⟨-, -, piece', again', hcovers', hparse', hagain'⟩ := hpart
  have hpiece : piece' = piece := (hcovers piece').mp (hspan ▸ (hcovers' piece').mpr rfl)
  rw [hpiece, hparse] at hparse'
  cases hparse'
  rw [← hagain, ← hagain', hspan]

/-- The parts of the nodes at the front of a text are slices of it. -/
theorem Spells.exists_slice {text : String} {taken rest : List Token} (h : Spells nodes taken)
    (hlexes : Lexes 0 text.toList (taken ++ rest)) (hmem : node ∈ nodes)
    (hpart : part.Part node) :
    ∃ mine, Spells [part] mine ∧ InOrder mine ∧ IsSlice text part := by
  obtain ⟨earlier, mine, later, rfl, hmine⟩ := h.exists_tokens_of_part hmem hpart
  rw [List.append_assoc, List.append_assoc] at hlexes
  have horder : InOrder mine := hlexes.inOrder.sublist
    ((List.sublist_append_left ..).trans (List.sublist_append_right ..))
  exact ⟨mine, hmine, horder, isSlice_of_lexes hlexes hmine horder⟩

/-- The nodes that a reader yields for a text stand one behind the other.  Each of them, and each of
their parts, was read from the piece of text at its span, and is what this piece is read as.  The
children of a list stand inside of it, one behind the other. -/
theorem slices_of_yields {text : String} {items : List (Except ReadError Node)}
    {left : List Token} (h : Yields (Token.tokenize text) (nodes.map .ok ++ items) left) :
    (nodes.Pairwise fun a b => a.span.Precedes b.span) ∧
    ∀ node ∈ nodes, ∀ part : Node, part.Part node → IsSlice text part ∧
      ∀ children span, part = .list children span →
        (∀ child ∈ children, span.start < child.span.start ∧ child.span.stop < span.stop) ∧
        children.Pairwise fun a b => a.span.Precedes b.span := by
  obtain ⟨taken, rest, htokens, hnodes⟩ := exists_spells_of_yields h
  have hlexes := lexes_tokenize text
  rw [htokens] at hlexes
  refine ⟨hnodes.pairwise (hlexes.inOrder.sublist (List.sublist_append_left ..)), ?_⟩
  intro node hmem part hpart
  obtain ⟨mine, hmine, horder, hslice⟩ := hnodes.exists_slice hlexes hmem hpart
  refine ⟨hslice, ?_⟩
  rintro children span rfl
  exact hmine.inside horder

/-- The list of `é (λ () -0)) x`. -/
def lambdaList : Node :=
  .list [.symbol "λ" ⟨4, 6⟩, .list [] ⟨7, 9⟩, .number (-0) ⟨10, 12⟩] ⟨3, 13⟩

/-- In `é (λ () -0)) x` a stray paren stands behind two nodes.  The second is what `(λ () -0)` is
read as, three bytes further on. -/
theorem slices_before_stray :
    Yields (Token.tokenize "é (λ () -0)) x")
        ([.symbol "é" ⟨0, 2⟩, lambdaList].map .ok ++ [.error (.strayClose ⟨13, 14⟩)]) [] ∧
      lambdaList.Part lambdaList ∧ IsSlice "é (λ () -0)) x" lambdaList ∧
      lambdaList.span.Covers "é (λ () -0)) x".toList "(λ () -0)" := by
  have hyields : Yields (Token.tokenize "é (λ () -0)) x")
      ([.symbol "é" ⟨0, 2⟩, lambdaList].map .ok ++ [.error (.strayClose ⟨13, 14⟩)]) [] := by
    have hfirst : read (Token.tokenize "é (λ () -0)) x") =
        .ok (.symbol "é" ⟨0, 2⟩, (Token.tokenize "é (λ () -0)) x").tail) := by rfl
    have hsecond : read (Token.tokenize "é (λ () -0)) x").tail =
        .ok (lambdaList, [⟨.closing, ⟨13, 14⟩⟩, ⟨.atom "x", ⟨15, 16⟩⟩]) := by rfl
    exact .step (next?_eq_ok_iff.mpr hfirst) (.step (next?_eq_ok_iff.mpr hsecond)
      (Stuck.yields .strayClose))
  obtain ⟨-, hslices⟩ := slices_of_yields hyields
  refine ⟨hyields, .self, (hslices lambdaList (by simp) lambdaList .self).1, ?_⟩
  exact ⟨"é ".toList, ") x".toList, by decide, by decide, by decide⟩

end Reader
end TinyLisp
