import Mathlib.Data.Nat.Find
import TinyLisp.Proofs.Lexing

/-!
# One way to cut a text

The tokens of a text can be told without a scanner.  `Cuts chars tokens` says what tokens must be:
they stand in order, each covers its own text, no atom touches another, and what no token covers
is blank.  `Munches pos chars items` says what a lexer finds that has four patterns, blanks, the
two parens and atoms, and always takes the longest match.

* `Cuts.lexes` and `cuts_tokenize`: the tokens of a text are cut in this way, and no others are.
* `Munches.lexes` and `exists_munches`: longest matches are the tokens of a text, and at every
  character there is a match.
* `tokenize_unique`: both in one.
-/

namespace TinyLisp

open Text (isBlank byteSize)
open Token (isAtomChar)

/-! ## Offsets -/

/-- The character stands at the offset. -/
def StandsAt (chars : List Char) (offset : Nat) (c : Char) : Prop :=
  ∃ before after, chars = before ++ c :: after ∧ byteSize before = offset

variable {chars front rest before after : List Char} {pos offset : Nat} {c : Char}
  {tokens earlier later : List Token} {token : Token}

theorem byteSize_pos (h : chars ≠ []) : 0 < byteSize chars := by
  cases chars with
  | nil => exact absurd rfl h
  | cons c rest =>
    have hsize := c.utf8Size_pos
    simp only [byteSize]
    omega

/-- Of two pieces at the front of the same characters the shorter one is at the front of the
other. -/
theorem exists_gap (h : front ++ rest = before ++ after)
    (hle : byteSize front ≤ byteSize before) :
    ∃ gap, before = front ++ gap ∧ rest = gap ++ after := by
  rcases List.append_eq_append_iff.mp h with hgap | ⟨excess, rfl, rfl⟩
  · exact hgap
  · rw [Text.byteSize_append] at hle
    have hnil : excess = [] := by
      by_contra hne
      have hpos := byteSize_pos hne
      omega
    subst hnil
    exact ⟨[], by simp, rfl⟩

theorem StandsAt.append (h : StandsAt rest offset c) (front : List Char) :
    StandsAt (front ++ rest) (byteSize front + offset) c := by
  obtain ⟨before, after, rfl, rfl⟩ := h
  exact ⟨front ++ before, after, by simp, Text.byteSize_append _ _⟩

/-- A character of two pieces stands in the first one or in the second. -/
theorem StandsAt.of_append (h : StandsAt (front ++ rest) offset c) :
    offset < byteSize front ∨ ∃ later, offset = byteSize front + later ∧ StandsAt rest later c := by
  obtain ⟨before, after, hchars, rfl⟩ := h
  by_cases hlt : byteSize before < byteSize front
  · exact .inl hlt
  · obtain ⟨gap, rfl, rfl⟩ := exists_gap hchars (by omega)
    exact .inr ⟨byteSize gap, Text.byteSize_append _ _, gap, after, rfl, rfl⟩

/-! ## Cuts -/

/-- The text stands at the span. -/
def Span.Covers (chars : List Char) (span : Span) (text : String) : Prop :=
  ∃ before after, chars = before ++ (text.toList ++ after) ∧ span.start = byteSize before ∧
    span.stop = span.start + byteSize text.toList

/-- The offset is one of those from the start of the span up to its end. -/
def Span.Holds (span : Span) (offset : Nat) : Prop :=
  span.start ≤ offset ∧ offset < span.stop

/-- The token is an atom. -/
def Token.IsAtom (token : Token) : Prop :=
  ∃ text, token.kind = .atom text

/-- The tokens are a way to cut the characters. -/
structure Cuts (chars : List Char) (tokens : List Token) : Prop where
  /-- No span is empty. -/
  start_lt_stop : ∀ token ∈ tokens, token.span.start < token.span.stop
  /-- Each span is a range of the characters. -/
  within : ∀ token ∈ tokens, token.span.Within chars
  /-- The tokens stand one behind the other. -/
  ordered : tokens.Pairwise fun a b =>
    a.span.start < b.span.start ∧ a.span.stop ≤ b.span.start
  /-- Each token covers its own text, which is one paren for a paren. -/
  covers : ∀ token ∈ tokens, token.span.Covers chars token.kind.text
  /-- Atoms are words. -/
  word : ∀ text span, ⟨.atom text, span⟩ ∈ tokens → IsWord text
  /-- What no token covers is blank. -/
  blank : ∀ offset c, StandsAt chars offset c → (∀ token ∈ tokens, ¬ token.span.Holds offset) →
    isBlank c = true
  /-- Between two atoms stands a blank or a paren. -/
  apart : tokens.Pairwise fun a b => a.IsAtom → b.IsAtom →
    ∃ offset c, a.span.stop ≤ offset ∧ offset < b.span.start ∧ StandsAt chars offset c ∧
      isAtomChar c = false

/-! ## No other way to cut a text -/

/-- Blanks stand between tokens. -/
theorem Cuts.isBlank_of_between {gap : List Char} (h : Cuts chars (earlier ++ later))
    (hchars : chars = front ++ (gap ++ rest))
    (hearlier : ∀ token ∈ earlier, token.span.stop ≤ byteSize front)
    (hlater : ∀ token ∈ later, byteSize (front ++ gap) ≤ token.span.start) :
    ∀ c ∈ gap, isBlank c = true := by
  intro c hmem
  obtain ⟨before, after, rfl⟩ := List.append_of_mem hmem
  refine h.blank (byteSize (front ++ before)) c ⟨front ++ before, after ++ rest, ?_, rfl⟩ ?_
  · rw [hchars]
    simp
  · rintro token htoken ⟨hstart, hstop⟩
    have hsize := c.utf8Size_pos
    have hbefore := Text.byteSize_append front before
    rcases List.mem_append.mp htoken with hmem | hmem
    · have hle := hearlier token hmem
      omega
    · have hle := hlater token hmem
      simp only [Text.byteSize_append, byteSize] at hle
      omega

theorem Token.isBlank_eq_false_of_isAtomChar (h : isAtomChar c = true) : isBlank c = false := by
  simp only [isAtomChar, Bool.and_eq_true, Bool.not_eq_true'] at h
  exact h.1.1

/-- Only an atom begins with a character of an atom. -/
theorem Token.isAtom_of_text (h : token.kind.text.toList = c :: rest)
    (hc : isAtomChar c = true) : token.IsAtom := by
  obtain ⟨kind, span⟩ := token
  cases kind with
  | opening =>
    rw [Token.text_of_paren? (c := '(') rfl] at h
    cases h
    cases hc
  | closing =>
    rw [Token.text_of_paren? (c := ')') rfl] at h
    cases h
    cases hc
  | atom text => exact ⟨text, rfl⟩

/-- A text that stands at a span is at the front of what begins there. -/
theorem Span.Covers.eq_append {span : Span} {text : String} (h : span.Covers chars text)
    (hchars : chars = front ++ rest) (hstart : span.start = byteSize front) :
    ∃ after, rest = text.toList ++ after := by
  obtain ⟨before, after, hcovers, hbefore, -⟩ := h
  obtain ⟨gap, rfl, rfl⟩ := exists_gap (hchars.symm.trans hcovers) (by omega)
  have hgap : gap = [] := by
    by_contra hne
    have hpos := byteSize_pos hne
    rw [Text.byteSize_append] at hbefore
    omega
  exact ⟨after, by rw [hgap, List.nil_append]⟩

/-- A token that begins with a character of an atom is an atom. -/
theorem Cuts.isAtom_of_start (h : Cuts chars tokens) (hmem : token ∈ tokens)
    (hchars : chars = front ++ c :: rest) (hstart : token.span.start = byteSize front)
    (hc : isAtomChar c = true) : token.IsAtom := by
  have hlt := h.start_lt_stop token hmem
  obtain ⟨after, htext⟩ := (h.covers token hmem).eq_append hchars hstart
  obtain ⟨-, -, -, -, hstop⟩ := h.covers token hmem
  cases hother : token.kind.text.toList with
  | nil =>
    simp only [hother, byteSize] at hstop
    omega
  | cons d later =>
    rw [hother] at htext
    cases htext
    exact Token.isAtom_of_text hother hc

theorem Cuts.exists_holds (h : Cuts chars tokens) (hat : StandsAt chars offset c)
    (hc : isBlank c = false) : ∃ token ∈ tokens, token.span.Holds offset := by
  by_contra hnone
  have hblank := h.blank offset c hat (by simpa using hnone)
  simp [hc] at hblank

/-- Behind an atom no character of an atom follows: it would be part of another atom, and the two
would touch. -/
theorem Cuts.endsWord (h : Cuts chars (earlier ++ token :: later)) (hatom : token.IsAtom)
    (hchars : chars = front ++ rest) (hstop : token.span.stop = byteSize front)
    (hearlier : ∀ token ∈ earlier, token.span.stop ≤ byteSize front) : EndsWord rest := by
  intro c hhead
  obtain ⟨more, rfl⟩ := List.head?_eq_some_iff.mp hhead
  by_contra hc
  rw [Bool.not_eq_false] at hc
  have hblank := Token.isBlank_eq_false_of_isAtomChar hc
  obtain ⟨other, hmem, hfrom, hto⟩ := h.exists_holds ⟨front, more, hchars, rfl⟩ hblank
  rcases List.mem_append.mp hmem with hbefore | hbehind
  · have hle := hearlier other hbefore
    omega
  rcases List.mem_cons.mp hbehind with rfl | hlater
  · omega
  have hordered := (List.pairwise_append.mp h.ordered).2.1
  have hle := ((List.pairwise_cons.mp hordered).1 other hlater).2
  have hother := h.isAtom_of_start hmem hchars (by omega) hc
  have hapart := (List.pairwise_append.mp h.apart).2.1
  obtain ⟨offset, d, hfrom, hto, -⟩ := (List.pairwise_cons.mp hapart).1 other hlater hatom hother
  omega

/-- A token in front of others. -/
theorem Lexes.cons_token (kind : TokenKind)
    (hword : ∀ text, kind = .atom text → IsWord text ∧ EndsWord rest)
    (hrest : Lexes (pos + byteSize kind.text.toList) rest tokens) :
    Lexes pos (kind.text.toList ++ rest)
      (⟨kind, ⟨pos, pos + byteSize kind.text.toList⟩⟩ :: tokens) := by
  cases kind with
  | opening =>
    rw [Token.text_of_paren? (c := '(') rfl] at hrest ⊢
    exact .paren rfl hrest
  | closing =>
    rw [Token.text_of_paren? (c := ')') rfl] at hrest ⊢
    exact .paren rfl hrest
  | atom text =>
    obtain ⟨hisWord, hend⟩ := hword text rfl
    have hlexes := Lexes.word hisWord.ne_nil hisWord.isAtomChar hend hrest
    rw [String.ofList_toList] at hlexes
    exact hlexes

/-- Up to the next token there are only blanks. -/
theorem Cuts.exists_blanks (h : Cuts chars (earlier ++ token :: later))
    (hchars : chars = front ++ rest)
    (hearlier : ∀ token ∈ earlier, token.span.stop ≤ byteSize front)
    (hle : byteSize front ≤ token.span.start) :
    ∃ gap after, rest = gap ++ (token.kind.text.toList ++ after) ∧
      (∀ c ∈ gap, isBlank c = true) ∧
      token.span = ⟨byteSize (front ++ gap),
        byteSize (front ++ gap) + byteSize token.kind.text.toList⟩ := by
  obtain ⟨before, after, hcovers, hstart, hstop⟩ := h.covers token (by simp)
  obtain ⟨gap, rfl, rfl⟩ := exists_gap (hchars.symm.trans hcovers) (hstart ▸ hle)
  refine ⟨gap, after, rfl, ?_, by rw [← hstart, ← hstop]⟩
  refine h.isBlank_of_between hchars hearlier fun other hmem => ?_
  rcases List.mem_cons.mp hmem with rfl | hmem
  · exact Nat.le_of_eq hstart.symm
  · have hordered := (List.pairwise_append.mp h.ordered).2.1
    have hlt := ((List.pairwise_cons.mp hordered).1 other hmem).1
    omega

/-- From any token on, cut tokens are those of the characters there.  The induction is over the
tokens that are left: the blanks in front of the next one, its text, and the rest. -/
theorem Cuts.lexes_of_append (h : Cuts chars (earlier ++ later)) (hchars : chars = front ++ rest)
    (hearlier : ∀ token ∈ earlier, token.span.stop ≤ byteSize front)
    (hlater : ∀ token ∈ later, byteSize front ≤ token.span.start) :
    Lexes (byteSize front) rest later := by
  induction later generalizing earlier front rest with
  | nil =>
    have hblank : ∀ c ∈ rest, isBlank c = true :=
      h.isBlank_of_between (by rw [List.append_nil, hchars]) hearlier (by simp)
    simpa using Lexes.blanks_append hblank .nil
  | cons token later ih =>
    obtain ⟨gap, after, rfl, hblank, hspan⟩ :=
      h.exists_blanks hchars hearlier (hlater token List.mem_cons_self)
    have hfront := Text.byteSize_append front gap
    have hend : token.span.stop = byteSize (front ++ gap ++ token.kind.text.toList) := by
      rw [Text.byteSize_append (front ++ gap), hspan]
    have hcut : chars = (front ++ gap ++ token.kind.text.toList) ++ after := by
      rw [hchars]
      simp
    have hpassed : ∀ other ∈ earlier,
        other.span.stop ≤ byteSize (front ++ gap ++ token.kind.text.toList) := by
      intro other hmem
      have hle := hearlier other hmem
      rw [Text.byteSize_append (front ++ gap)]
      omega
    have hword : ∀ text, token.kind = .atom text → IsWord text ∧ EndsWord after := by
      intro text hkind
      have hmem : (⟨.atom text, token.span⟩ : Token) ∈ earlier ++ token :: later := by
        rw [← hkind]
        simp
      exact ⟨h.word _ _ hmem, h.endsWord ⟨text, hkind⟩ hcut hend hpassed⟩
    have hrest : Lexes (byteSize (front ++ gap ++ token.kind.text.toList)) after later := by
      rw [List.append_cons] at h
      refine ih h hcut ?_ fun other hmem => ?_
      · intro other hmem
        rcases List.mem_append.mp hmem with hmem | hmem
        · exact hpassed other hmem
        · rw [List.mem_singleton.mp hmem]
          exact Nat.le_of_eq hend
      · have hordered := (List.pairwise_append.mp h.ordered).2.2
        exact hend ▸ (hordered token (by simp) other hmem).2
    rw [Text.byteSize_append (front ++ gap)] at hrest
    have hlexes := Lexes.cons_token token.kind hword hrest
    rw [← hspan, hfront] at hlexes
    exact .blanks_append hblank hlexes

/-- Tokens that are a way to cut characters are those of the characters. -/
theorem Cuts.lexes (h : Cuts chars tokens) : Lexes 0 chars tokens :=
  @Cuts.lexes_of_append chars [] chars [] tokens h rfl (by simp) fun _ _ => Nat.zero_le _

/-! ## The tokens of a text are a way to cut it -/

theorem Lexes.text_ne_nil (h : Lexes pos chars tokens) (hmem : token ∈ tokens) :
    token.kind.text.toList ≠ [] := by
  obtain ⟨kind, span⟩ := token
  cases kind with
  | opening => simp [TokenKind.text]
  | closing => simp [TokenKind.text]
  | atom text => exact (h.isWord hmem).ne_nil

theorem Lexes.isWord_text (h : Lexes pos chars tokens) (hmem : token ∈ tokens)
    (hatom : token.IsAtom) : IsWord token.kind.text := by
  obtain ⟨kind, span⟩ := token
  obtain ⟨text, rfl⟩ : ∃ text, kind = .atom text := hatom
  exact h.isWord hmem

theorem Lexes.le_start (h : Lexes pos chars tokens) (hmem : token ∈ tokens) :
    pos ≤ token.span.start := by
  obtain ⟨before, after, -, hstart, -⟩ := h.covers hmem
  omega

theorem Lexes.start_lt_stop (h : Lexes pos chars tokens) (hmem : token ∈ tokens) :
    token.span.start < token.span.stop := by
  have hpos := byteSize_pos (h.text_ne_nil hmem)
  obtain ⟨before, after, -, -, hstop⟩ := h.covers hmem
  omega

theorem Lexes.ordered (h : Lexes pos chars tokens) :
    tokens.Pairwise fun a b => a.span.stop ≤ b.span.start := by
  induction h with
  | nil => exact .nil
  | blank _ _ ih => exact ih
  | paren _ hrest ih => exact .cons (fun other hmem => hrest.le_start hmem) ih
  | word _ _ _ hrest ih => exact .cons (fun other hmem => hrest.le_start hmem) ih

/-- Behind the text of a token, a character that no token covers is one that no later token
covers. -/
theorem StandsAt.of_not_holds (h : StandsAt (front ++ rest) offset c)
    (hspan : token.span = ⟨pos, pos + byteSize front⟩)
    (hnone : ∀ other ∈ token :: tokens, ¬ other.span.Holds (pos + offset)) :
    ∃ later, StandsAt rest later c ∧
      ∀ other ∈ tokens, ¬ other.span.Holds (pos + byteSize front + later) := by
  rcases h.of_append with hlt | ⟨later, rfl, hlater⟩
  · refine absurd ?_ (hnone token List.mem_cons_self)
    rw [hspan]
    exact ⟨Nat.le_add_right _ _, Nat.add_lt_add_left hlt pos⟩
  · refine ⟨later, hlater, fun other hmem => ?_⟩
    rw [Nat.add_assoc]
    exact hnone other (List.mem_cons_of_mem _ hmem)

/-- A character that no token covers is blank. -/
theorem Lexes.isBlank_of_not_holds (h : Lexes pos chars tokens) (hat : StandsAt chars offset c)
    (hnone : ∀ token ∈ tokens, ¬ token.span.Holds (pos + offset)) : isBlank c = true := by
  induction h generalizing offset with
  | nil =>
    obtain ⟨before, after, hchars, -⟩ := hat
    simp at hchars
  | @blank pos d rest tokens hd _ ih =>
    obtain ⟨before, after, hchars, rfl⟩ := hat
    cases before with
    | nil =>
      cases hchars
      exact hd
    | cons e before =>
      cases hchars
      exact ih ⟨before, after, rfl, rfl⟩ (by simpa [byteSize, Nat.add_assoc] using hnone)
  | @paren pos d kind rest tokens _ _ ih =>
    have hsplit : StandsAt ([d] ++ rest) offset c := hat
    obtain ⟨later, hlater, hnone⟩ := hsplit.of_not_holds rfl hnone
    exact ih hlater hnone
  | word _ _ _ _ ih =>
    obtain ⟨later, hlater, hnone⟩ := hat.of_not_holds rfl hnone
    exact ih hlater hnone

/-- Between the tokens stands a character that is part of no atom. -/
def Apart (pos : Nat) (chars : List Char) (a b : Token) : Prop :=
  ∃ offset c, a.span.stop ≤ pos + offset ∧ pos + offset < b.span.start ∧
    StandsAt chars offset c ∧ isAtomChar c = false

theorem Apart.append {a b : Token} (h : Apart (pos + byteSize front) rest a b) :
    Apart pos (front ++ rest) a b := by
  obtain ⟨offset, c, hstop, hstart, hat, hc⟩ := h
  rw [Nat.add_assoc] at hstop hstart
  exact ⟨byteSize front + offset, c, hstop, hstart, hat.append front, hc⟩

/-- In front of an atom stands a character that is part of none, if no atom goes on there. -/
theorem Lexes.apart_of_endsWord (h : Lexes (pos + byteSize front) rest tokens)
    (hend : EndsWord rest) {a b : Token} (hspan : a.span = ⟨pos, pos + byteSize front⟩)
    (hmem : b ∈ tokens) (hatom : b.IsAtom) : Apart pos (front ++ rest) a b := by
  obtain ⟨before, after, rfl, hstart, -⟩ := h.covers hmem
  cases before with
  | nil =>
    have hword := h.isWord_text hmem hatom
    obtain ⟨c, more, htext⟩ := List.exists_cons_of_ne_nil hword.ne_nil
    have hc : isAtomChar c = false := hend c (by simp [htext])
    simp [hword.isAtomChar c (by simp [htext])] at hc
  | cons c before =>
    have hsize := c.utf8Size_pos
    have hc : isAtomChar c = false := hend c rfl
    refine Apart.append ⟨0, c, ?_, ?_, ⟨[], _, rfl, rfl⟩, hc⟩
    · rw [hspan, Nat.add_zero]
    · simp only [byteSize] at hstart
      omega

/-- No two atoms touch. -/
theorem Lexes.apart (h : Lexes pos chars tokens) :
    tokens.Pairwise fun a b => a.IsAtom → b.IsAtom → Apart pos chars a b := by
  induction h with
  | nil => exact .nil
  | @blank pos c rest tokens _ _ ih =>
    exact ih.imp fun hab ha hb => @Apart.append [c] rest pos _ _ (hab ha hb)
  | @paren pos c kind rest tokens hc _ ih =>
    refine .cons ?_ (ih.imp fun hab ha hb => @Apart.append [c] rest pos _ _ (hab ha hb))
    rintro other - ⟨text, hkind⟩ -
    obtain rfl : kind = .atom text := hkind
    exact absurd hc Token.paren?_ne_atom
  | word _ _ hend hrest ih =>
    refine .cons ?_ (ih.imp fun hab ha hb => (hab ha hb).append)
    intro other hmem _ hatom
    exact hrest.apart_of_endsWord hend rfl hmem hatom

theorem cuts_tokenize (text : String) : Cuts text.toList (Token.tokenize text) := by
  have hlexes := lexes_tokenize text
  refine ⟨?_, ?_, ?_, ?_, ?_, ?_, ?_⟩
  · exact fun token hmem => hlexes.start_lt_stop hmem
  · exact fun token hmem => within_of_mem_tokenize hmem
  · refine hlexes.ordered.imp_of_mem fun ha _ hle => ⟨?_, hle⟩
    exact Nat.lt_of_lt_of_le (hlexes.start_lt_stop ha) hle
  · intro token hmem
    obtain ⟨before, after, hchars, hstart, hstop⟩ := hlexes.covers hmem
    exact ⟨before, after, hchars, by omega, hstop⟩
  · exact fun text span hmem => hlexes.isWord hmem
  · intro offset c hat hnone
    exact hlexes.isBlank_of_not_holds hat (by simpa using hnone)
  · refine hlexes.apart.imp fun hab ha hb => ?_
    simpa [Apart] using hab ha hb

/-! ## Longest matches -/

/-- The patterns of the lexer. -/
inductive Pattern where
  /-- One blank or more. -/
  | blanks
  /-- The paren `(`. -/
  | opening
  /-- The paren `)`. -/
  | closing
  /-- One character or more of those that are neither blank nor a paren. -/
  | atom

namespace Pattern

/-- The pattern matches the piece as a whole. -/
def Matches : Pattern → List Char → Prop
  | blanks, piece => piece ≠ [] ∧ ∀ c ∈ piece, isBlank c = true
  | opening, piece => piece = ['(']
  | closing, piece => piece = [')']
  | atom, piece => piece ≠ [] ∧ ∀ c ∈ piece, isAtomChar c = true

/-- The token that a piece is if the pattern matches it.  Blanks are skipped. -/
def kind? : Pattern → List Char → Option TokenKind
  | blanks, _ => none
  | opening, _ => some .opening
  | closing, _ => some .closing
  | atom, piece => some (.atom (String.ofList piece))

/-- At every character some pattern matches. -/
theorem exists_matches (c : Char) : ∃ pattern : Pattern, pattern.Matches [c] := by
  cases hc : isAtomChar c with
  | true => exact ⟨atom, by simp [Matches, hc]⟩
  | false =>
    cases hparen : Token.paren? c with
    | none =>
      have hblank := Token.isBlank_of_not_isAtomChar hc hparen
      exact ⟨blanks, by simp [Matches, hblank]⟩
    | some kind =>
      have htext := Token.text_of_paren? hparen
      cases kind with
      | opening => exact ⟨opening, htext.symm⟩
      | closing => exact ⟨closing, htext.symm⟩
      | atom text => exact absurd hparen Token.paren?_ne_atom

theorem Matches.ne_nil {pattern : Pattern} {piece : List Char} (h : pattern.Matches piece) :
    piece ≠ [] := by
  cases pattern with
  | blanks => exact h.1
  | opening => simp [show piece = ['('] from h]
  | closing => simp [show piece = [')'] from h]
  | atom => exact h.1

end Pattern

/-- The pattern matches the piece, and no pattern matches more characters than these. -/
structure Longest (pattern : Pattern) (piece rest : List Char) : Prop where
  isMatch : pattern.Matches piece
  length_le : ∀ (other : Pattern) (more : List Char), other.Matches more → more <+: piece ++ rest →
    more.length ≤ piece.length

/-- What a lexer finds that always takes the longest match: tokens, or spans of characters at
which nothing matches. -/
inductive Munches : Nat → List Char → List (Except Span Token) → Prop where
  | nil {pos : Nat} : Munches pos [] []
  | skip {pos : Nat} {pattern piece} {rest : List Char} {items} (h : Longest pattern piece rest)
      (hkind : pattern.kind? piece = none) (hrest : Munches (pos + byteSize piece) rest items) :
      Munches pos (piece ++ rest) items
  | token {pos : Nat} {pattern piece} {rest : List Char} {kind items}
      (h : Longest pattern piece rest) (hkind : pattern.kind? piece = some kind)
      (hrest : Munches (pos + byteSize piece) rest items) :
      Munches pos (piece ++ rest) (.ok ⟨kind, ⟨pos, pos + byteSize piece⟩⟩ :: items)
  | error {pos : Nat} {piece} {rest : List Char} {items} (hne : piece ≠ [])
      (hnone : ∀ (pattern : Pattern) (more : List Char), pattern.Matches more →
        ¬ more <+: piece ++ rest)
      (hrest : Munches (pos + byteSize piece) rest items) :
      Munches pos (piece ++ rest) (.error ⟨pos, pos + byteSize piece⟩ :: items)

variable {pattern : Pattern} {piece : List Char} {items : List (Except Span Token)}

/-- Some pattern matches in front of every character, and so one of them matches the most. -/
theorem exists_longest (hne : chars ≠ []) :
    ∃ pattern piece rest, chars = piece ++ rest ∧ Longest pattern piece rest := by
  classical
  let Fits (size : Nat) : Prop :=
    ∃ (pattern : Pattern) (piece : List Char), pattern.Matches piece ∧ piece <+: chars ∧
      piece.length = size
  obtain ⟨c, later, rfl⟩ := List.exists_cons_of_ne_nil hne
  obtain ⟨first, hfirst⟩ := Pattern.exists_matches c
  have hone : Fits 1 := ⟨first, [c], hfirst, ⟨later, rfl⟩, rfl⟩
  obtain ⟨pattern, piece, hmatch, ⟨rest, hrest⟩, hsize⟩ :=
    Nat.findGreatest_spec (Nat.le_add_left 1 later.length) hone
  refine ⟨pattern, piece, rest, hrest.symm, hmatch, fun other more hother hmore => ?_⟩
  rw [hrest] at hmore
  rw [hsize]
  exact Nat.le_findGreatest hmore.length_le ⟨other, more, hother, hmore, rfl⟩

theorem exists_munches (pos : Nat) (chars : List Char) : ∃ items, Munches pos chars items := by
  by_cases hne : chars = []
  · exact ⟨[], hne ▸ .nil⟩
  · obtain ⟨pattern, piece, rest, hchars, hlongest⟩ := exists_longest hne
    have hpiece := List.length_pos_iff.mpr hlongest.isMatch.ne_nil
    have hlt : rest.length < chars.length := by
      rw [hchars, List.length_append]
      omega
    obtain ⟨items, hitems⟩ := exists_munches (pos + byteSize piece) rest
    rw [hchars]
    cases hkind : pattern.kind? piece with
    | none => exact ⟨items, .skip hlongest hkind hitems⟩
    | some kind => exact ⟨_, .token hlongest hkind hitems⟩
termination_by chars.length

/-- The longest atom ends where no atom goes on. -/
theorem Longest.endsWord (h : Longest .atom piece rest) : EndsWord rest := by
  intro c hhead
  obtain ⟨more, rfl⟩ := List.head?_eq_some_iff.mp hhead
  by_contra hc
  rw [Bool.not_eq_false] at hc
  have hword := h.isMatch.2
  have hmatch : Pattern.atom.Matches (piece ++ [c]) := by
    refine ⟨by simp, fun d hmem => ?_⟩
    rcases List.mem_append.mp hmem with hmem | hmem
    · exact hword d hmem
    · rw [List.mem_singleton.mp hmem, hc]
  have hle := h.length_le .atom (piece ++ [c]) hmatch ⟨more, by simp⟩
  rw [List.length_append, List.length_singleton] at hle
  omega

/-- Longest matches are the tokens of the characters, and nowhere does nothing match. -/
theorem Munches.lexes (h : Munches pos chars items) :
    ∃ tokens, Lexes pos chars tokens ∧ items = tokens.map .ok := by
  induction h with
  | nil => exact ⟨[], .nil, rfl⟩
  | @skip pos pattern piece rest items h hkind _ ih =>
    obtain ⟨tokens, hlexes, rfl⟩ := ih
    cases pattern with
    | blanks => exact ⟨tokens, .blanks_append h.isMatch.2 hlexes, rfl⟩
    | opening | closing | atom => cases hkind
  | @token pos pattern piece rest kind items h hkind _ ih =>
    obtain ⟨tokens, hlexes, rfl⟩ := ih
    refine ⟨⟨kind, ⟨pos, pos + byteSize piece⟩⟩ :: tokens, ?_, rfl⟩
    cases pattern with
    | blanks => cases hkind
    | opening =>
      cases hkind
      cases h.isMatch
      exact .paren rfl hlexes
    | closing =>
      cases hkind
      cases h.isMatch
      exact .paren rfl hlexes
    | atom =>
      cases hkind
      exact .word h.isMatch.1 h.isMatch.2 h.endsWord hlexes
  | @error pos piece rest items hne hnone _ _ =>
    obtain ⟨c, more, rfl⟩ := List.exists_cons_of_ne_nil hne
    obtain ⟨pattern, hmatch⟩ := Pattern.exists_matches c
    exact absurd ⟨more ++ rest, rfl⟩ (hnone pattern [c] hmatch)

theorem munches_iff (text : String) :
    Munches 0 text.toList items ↔ items = (Token.tokenize text).map .ok := by
  have hmunches : ∀ {found}, Munches 0 text.toList found →
      found = (Token.tokenize text).map .ok := by
    intro found h
    obtain ⟨tokens, hlexes, rfl⟩ := h.lexes
    rw [Token.tokenize, hlexes.scan_eq]
  constructor
  · exact hmunches
  · rintro rfl
    obtain ⟨found, hfound⟩ := exists_munches 0 text.toList
    exact hmunches hfound ▸ hfound

/-! ## One way -/

/-- The tokens of a text are the only way to cut it.  A lexer that always takes the longest match
finds these tokens and no character at which nothing matches. -/
theorem tokenize_unique (text : String) :
    (∀ tokens, Cuts text.toList tokens ↔ tokens = Token.tokenize text) ∧
    ∀ items, Munches 0 text.toList items ↔ items = (Token.tokenize text).map .ok := by
  refine ⟨fun tokens => ⟨fun h => ?_, ?_⟩, fun items => munches_iff text⟩
  · exact h.lexes.scan_eq.symm
  · rintro rfl
    exact cuts_tokenize text

example : Token.tokenize "é\u3000((x" =
    [⟨.atom "é", ⟨0, 2⟩⟩, ⟨.opening, ⟨5, 6⟩⟩, ⟨.opening, ⟨6, 7⟩⟩, ⟨.atom "x", ⟨7, 8⟩⟩] := by
  decide

end TinyLisp
