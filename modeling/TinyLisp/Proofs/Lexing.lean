import TinyLisp.Proofs.Nodes

/-!
# The words of a text

`Lexes pos chars tokens` says what the tokens of some characters are, if the characters begin
at the offset `pos`.  A word ends only where no character of an atom follows, so no text has
two sequences of tokens.

* `lexes_scan` and `Lexes.scan_eq`: the scanner finds the tokens that the relation allows, and
  no others.
* `Lexes.append`: two pieces of text that cannot grow together.
* `Lexes.shift` and `tokenize_blanks_append`: offsets, and blanks in front of a text.
* `Lexes.covers` and `within_of_mem_tokenize`: each token covers its own text.
-/

namespace TinyLisp

open Text (isBlank byteSize)

namespace Token

/-! ## Characters -/

/-- No paren is blank. -/
theorem paren?_of_isBlank {c : Char} (h : isBlank c = true) : paren? c = none := by
  unfold paren?
  split
  · subst_vars
    exact absurd h (by decide)
  · split
    · subst_vars
      exact absurd h (by decide)
    · rfl

theorem paren?_eq_none_iff {c : Char} : paren? c = none ↔ c ≠ '(' ∧ c ≠ ')' := by
  unfold paren?
  split
  · simp_all
  · split <;> simp_all

theorem isAtomChar_of_isBlank {c : Char} (h : isBlank c = true) : isAtomChar c = false := by
  simp [isAtomChar, h]

theorem isAtomChar_of_paren? {c : Char} {kind : TokenKind} (h : paren? c = some kind) :
    isAtomChar c = false := by
  cases hatom : isAtomChar c with
  | false => rfl
  | true => simp [paren?_eq_none_of_isAtomChar hatom] at h

theorem paren?_ne_atom {c : Char} {text : String} : paren? c ≠ some (.atom text) := by
  unfold paren?
  split
  · simp
  · split <;> simp

/-- The text of a paren is that paren. -/
theorem text_of_paren? {c : Char} {kind : TokenKind} (h : paren? c = some kind) :
    kind.text.toList = [c] := by
  unfold paren? at h
  split at h
  · cases h
    subst_vars
    rfl
  · split at h
    · cases h
      subst_vars
      rfl
    · cases h

end Token

open Token (isAtomChar paren? scan endWord)

/-! ## Pieces of text -/

/-- A text that says nothing. -/
def Blank (text : String) : Prop :=
  ∀ c ∈ text.toList, isBlank c = true

instance (text : String) : Decidable (Blank text) :=
  decidable_of_iff (text.toList.all isBlank = true) List.all_eq_true

/-- The text is one atom: it is not empty, and none of its characters is blank or a paren. -/
structure IsWord (text : String) : Prop where
  ne_nil : text.toList ≠ []
  isAtomChar : ∀ c ∈ text.toList, isAtomChar c = true

/-! ## Tokens -/

/-- No atom can go on with these characters. -/
def EndsWord (chars : List Char) : Prop :=
  ∀ c ∈ chars.head?, isAtomChar c = false

/-- The tokens are those of the characters, which begin at the offset. -/
inductive Lexes : Nat → List Char → List Token → Prop where
  | nil {pos} : Lexes pos [] []
  | blank {pos c rest tokens} (hc : isBlank c = true)
      (hrest : Lexes (pos + c.utf8Size) rest tokens) : Lexes pos (c :: rest) tokens
  | paren {pos c kind rest tokens} (hc : paren? c = some kind)
      (hrest : Lexes (pos + c.utf8Size) rest tokens) :
      Lexes pos (c :: rest) (⟨kind, ⟨pos, pos + c.utf8Size⟩⟩ :: tokens)
  | word {pos word rest tokens} (hne : word ≠ []) (hword : ∀ c ∈ word, isAtomChar c = true)
      (hend : EndsWord rest) (hrest : Lexes (pos + byteSize word) rest tokens) :
      Lexes pos (word ++ rest)
        (⟨.atom (String.ofList word), ⟨pos, pos + byteSize word⟩⟩ :: tokens)

/-! ## The scanner -/

variable {pos : Nat} {word chars rest : List Char} {tokens : List Token}

theorem endsWord_nil : EndsWord [] := by
  simp [EndsWord]

theorem endsWord_cons {c : Char} (h : isAtomChar c = false) : EndsWord (c :: rest) := by
  simpa [EndsWord] using h

theorem endWord_nil (stop : Nat) (tokens : List Token) : endWord stop [] tokens = tokens := rfl

/-- The word that the scanner has begun, if it has begun one, is a token of its own. -/
theorem Lexes.endWord (hword : ∀ c ∈ word, isAtomChar c = true) (hend : EndsWord rest)
    (hrest : Lexes (pos + byteSize word) rest tokens) :
    Lexes pos (word.reverse ++ rest) (endWord (pos + byteSize word) word tokens) := by
  cases word with
  | nil => exact hrest
  | cons c later =>
    rw [← Text.byteSize_reverse] at hrest
    have hlexes := Lexes.word (by simp) (fun d hd => hword d (List.mem_reverse.mp hd)) hend hrest
    rw [Text.byteSize_reverse] at hlexes
    simpa [Token.endWord] using hlexes

/-- The scanner behind a character that belongs to no atom. -/
theorem scan_cons_of_not_isAtomChar {c : Char} (hc : isAtomChar c = false) :
    scan pos word (c :: rest) =
      endWord pos word
        (match paren? c with
          | some kind => ⟨kind, ⟨pos, pos + c.utf8Size⟩⟩ :: scan (pos + c.utf8Size) [] rest
          | none => scan (pos + c.utf8Size) [] rest) := by
  rw [scan]
  exact if_neg (by simp [hc])

/-- What the scanner makes of characters behind a word that it has begun. -/
theorem lexes_scan_word (pos : Nat) (word chars : List Char)
    (hword : ∀ c ∈ word, isAtomChar c = true) :
    Lexes pos (word.reverse ++ chars) (scan (pos + byteSize word) word chars) := by
  induction chars generalizing pos word with
  | nil => exact .endWord hword endsWord_nil .nil
  | cons c rest ih =>
    cases hc : isAtomChar c with
    | true =>
      have hlexes := ih pos (c :: word) (by simpa [hc] using hword)
      rw [scan, if_pos hc]
      simpa [byteSize, Nat.add_assoc, Nat.add_comm c.utf8Size] using hlexes
    | false =>
      have hrest := ih (pos + byteSize word + c.utf8Size) [] (by simp)
      rw [scan_cons_of_not_isAtomChar hc]
      refine .endWord hword (endsWord_cons hc) ?_
      cases hparen : paren? c with
      | some kind => exact .paren hparen hrest
      | none => exact .blank (Token.isBlank_of_not_isAtomChar hc hparen) hrest

theorem lexes_scan (pos : Nat) (chars : List Char) : Lexes pos chars (scan pos [] chars) :=
  lexes_scan_word pos [] chars (by simp)

/-- The scanner reads on in a word until it ends. -/
theorem scan_append_of_isAtomChar (pos : Nat) (begun word rest : List Char)
    (hword : ∀ c ∈ word, isAtomChar c = true) :
    scan pos begun (word ++ rest) = scan (pos + byteSize word) (word.reverse ++ begun) rest := by
  induction word generalizing pos begun with
  | nil => rfl
  | cons c later ih =>
    rw [List.cons_append, scan, if_pos (hword c List.mem_cons_self),
      ih _ _ fun d hd => hword d (List.mem_cons_of_mem _ hd)]
    simp [byteSize, Nat.add_assoc]

theorem scan_of_endsWord (hend : EndsWord rest) (pos : Nat) (word : List Char) :
    scan pos word rest = endWord pos word (scan pos [] rest) := by
  cases rest with
  | nil => simp [scan, endWord_nil]
  | cons c later =>
    have hc : isAtomChar c = false := hend c rfl
    rw [scan_cons_of_not_isAtomChar hc, scan_cons_of_not_isAtomChar hc, endWord_nil]

/-- Characters have no other tokens than those that the scanner finds. -/
theorem Lexes.scan_eq (h : Lexes pos chars tokens) : scan pos [] chars = tokens := by
  induction h with
  | nil => rfl
  | blank hc _ ih =>
    rw [scan_cons_of_not_isAtomChar (Token.isAtomChar_of_isBlank hc), Token.paren?_of_isBlank hc]
    exact ih
  | paren hc _ ih =>
    rw [scan_cons_of_not_isAtomChar (Token.isAtomChar_of_paren? hc), hc, ih]
    rfl
  | @word pos word rest tokens hne hword hend _ ih =>
    rw [scan_append_of_isAtomChar pos [] word rest hword, scan_of_endsWord hend, ih,
      List.append_nil, Token.endWord, Text.byteSize_reverse]
    simp [hne]

/-- A word that stands alone. -/
theorem Lexes.of_word (pos : Nat) (hne : word ≠ []) (hword : ∀ c ∈ word, isAtomChar c = true) :
    Lexes pos word [⟨.atom (String.ofList word), ⟨pos, pos + byteSize word⟩⟩] := by
  have h : Lexes pos (word ++ []) _ := .word hne hword endsWord_nil .nil
  rw [List.append_nil] at h
  exact h

theorem lexes_iff : Lexes pos chars tokens ↔ scan pos [] chars = tokens :=
  ⟨Lexes.scan_eq, fun h => h ▸ lexes_scan pos chars⟩

/-- The tokens of a text are those of its characters. -/
theorem lexes_tokenize (text : String) : Lexes 0 text.toList (Token.tokenize text) :=
  lexes_scan 0 text.toList

/-! ## Texts put together -/

theorem EndsWord.append_of_ne_nil {more : List Char} (h : EndsWord chars) (hne : chars ≠ []) :
    EndsWord (chars ++ more) := by
  cases chars with
  | nil => exact absurd rfl hne
  | cons c later => exact endsWord_cons (h c rfl)

/-- The tokens of two pieces of text are those of the first and those of the second, unless an
atom of the first might go on in the second. -/
theorem Lexes.append {more : List Char} {later : List Token} (h : Lexes pos chars tokens)
    (hend : EndsWord more) (hmore : Lexes (pos + byteSize chars) more later) :
    Lexes pos (chars ++ more) (tokens ++ later) := by
  induction h with
  | nil => exact hmore
  | blank hc _ ih => exact .blank hc (ih (by simpa [byteSize, Nat.add_assoc] using hmore))
  | paren hc _ ih => exact .paren hc (ih (by simpa [byteSize, Nat.add_assoc] using hmore))
  | @word pos word rest tokens hne hword hrest _ ih =>
    have hlater := ih (by simpa [Text.byteSize_append, Nat.add_assoc] using hmore)
    rw [List.append_assoc]
    refine .word hne hword ?_ hlater
    cases rest with
    | nil => exact hend
    | cons c later => exact hrest.append_of_ne_nil (by simp)

/-- The tokens of two pieces of text are those of the first and those of the second, if no atom
reaches up to the end of the first. -/
theorem Lexes.append_behind {more : List Char} {later : List Token} (h : Lexes pos chars tokens)
    (hlast : ∀ c ∈ chars.getLast?, isAtomChar c = false)
    (hmore : Lexes (pos + byteSize chars) more later) :
    Lexes pos (chars ++ more) (tokens ++ later) := by
  induction h with
  | nil => exact hmore
  | @blank pos c rest tokens hc _ ih =>
    refine .blank hc (ih (fun d hd => hlast d ?_) ?_)
    · simp [List.getLast?_cons, Option.mem_def.mp hd]
    · simpa [byteSize, Nat.add_assoc] using hmore
  | @paren pos c kind rest tokens hc _ ih =>
    refine .paren hc (ih (fun d hd => hlast d ?_) ?_)
    · simp [List.getLast?_cons, Option.mem_def.mp hd]
    · simpa [byteSize, Nat.add_assoc] using hmore
  | @word pos word rest tokens hne hword hrest _ ih =>
    -- With nothing behind it the word would reach up to the end of the first piece.
    have hbehind : rest ≠ [] := by
      rintro rfl
      have hatom := hword (word.getLast hne) (List.getLast_mem hne)
      have hend := hlast (word.getLast hne) (by simp [List.getLast?_eq_some_getLast hne])
      rw [hatom] at hend
      cases hend
    rw [List.append_assoc]
    refine .word hne hword (hrest.append_of_ne_nil hbehind) (ih (fun d hd => hlast d ?_) ?_)
    · simp [List.getLast?_append, Option.mem_def.mp hd]
    · simpa [Text.byteSize_append, Nat.add_assoc] using hmore

/-- The range `count` bytes further on. -/
def Span.shift (count : Nat) (span : Span) : Span :=
  ⟨span.start + count, span.stop + count⟩

theorem Span.shift_merge (count : Nat) (a b : Span) :
    (a.merge b).shift count = (a.shift count).merge (b.shift count) := by
  simp [shift, merge, Nat.add_min_add_right, Nat.add_max_add_right]

/-- The same characters further on have the same tokens further on. -/
theorem Lexes.shift (count : Nat) (h : Lexes pos chars tokens) :
    Lexes (pos + count) chars (tokens.map (Token.respan (Span.shift count))) := by
  induction h with
  | nil => exact .nil
  | blank hc _ ih => exact .blank hc (by simpa [Nat.add_right_comm] using ih)
  | @paren pos c kind rest tokens hc _ ih =>
    have hlexes := Lexes.paren hc (by simpa [Nat.add_right_comm] using ih)
    simpa [Token.respan, Span.shift, Nat.add_right_comm] using hlexes
  | @word pos word rest tokens hne hword hend _ ih =>
    have hlexes := Lexes.word hne hword hend (by simpa [Nat.add_right_comm] using ih)
    simpa [Token.respan, Span.shift, Nat.add_right_comm] using hlexes

theorem Lexes.blanks_append {blanks : List Char} (h : ∀ c ∈ blanks, isBlank c = true)
    (hchars : Lexes (pos + byteSize blanks) chars tokens) : Lexes pos (blanks ++ chars) tokens := by
  induction blanks generalizing pos with
  | nil => exact hchars
  | cons c rest ih =>
    refine .blank (h c List.mem_cons_self) (ih (fun d hd => h d (List.mem_cons_of_mem _ hd)) ?_)
    simpa [byteSize, Nat.add_assoc] using hchars

/-- Blanks in front of a text move its tokens. -/
theorem tokenize_blanks_append {blanks : String} (h : Blank blanks) (text : String) :
    Token.tokenize (blanks ++ text) =
      (Token.tokenize text).map (Token.respan (Span.shift (byteSize blanks.toList))) := by
  have hshift := (lexes_tokenize text).shift (byteSize blanks.toList)
  rw [Token.tokenize, String.toList_append]
  exact (Lexes.blanks_append h hshift).scan_eq

/-! ## What tokens cover -/

/-- The offset is that of a character, or that of the end. -/
def Boundary (chars : List Char) (offset : Nat) : Prop :=
  ∃ before after, chars = before ++ after ∧ byteSize before = offset

/-- The span is a range of the characters, and no end of it stands inside a character. -/
structure Span.Within (chars : List Char) (span : Span) : Prop where
  le : span.start ≤ span.stop
  start : Boundary chars span.start
  stop : Boundary chars span.stop

theorem Boundary.le (h : Boundary chars pos) : pos ≤ byteSize chars := by
  obtain ⟨before, after, rfl, rfl⟩ := h
  rw [Text.byteSize_append]
  exact Nat.le_add_right _ _

theorem Span.Within.merge {a b : Span} (ha : a.Within chars) (hb : b.Within chars) :
    (a.merge b).Within chars where
  le := Nat.le_trans (Nat.min_le_left _ _) (Nat.le_trans ha.le (Nat.le_max_left _ _))
  start := by
    simp only [Span.merge, Nat.min_def]
    split
    · exact ha.start
    · exact hb.start
  stop := by
    simp only [Span.merge, Nat.max_def]
    split
    · exact hb.stop
    · exact ha.stop

/-- A token covers its own text. -/
theorem Lexes.covers (h : Lexes pos chars tokens) {token : Token} (hmem : token ∈ tokens) :
    ∃ before after, chars = before ++ (token.kind.text.toList ++ after) ∧
      token.span.start = pos + byteSize before ∧
      token.span.stop = token.span.start + byteSize token.kind.text.toList := by
  induction h with
  | nil => simp at hmem
  | @blank pos c rest tokens _ _ ih =>
    obtain ⟨before, after, rfl, hstart, hstop⟩ := ih hmem
    exact ⟨c :: before, after, rfl, by simp [hstart, byteSize, Nat.add_assoc], hstop⟩
  | @paren pos c kind rest tokens hc _ ih =>
    rcases List.mem_cons.mp hmem with rfl | hmem
    · have htext := Token.text_of_paren? hc
      exact ⟨[], rest, by simp [htext], rfl, by simp [htext, byteSize]⟩
    · obtain ⟨before, after, rfl, hstart, hstop⟩ := ih hmem
      exact ⟨c :: before, after, rfl, by simp [hstart, byteSize, Nat.add_assoc], hstop⟩
  | @word pos word rest tokens _ _ _ _ ih =>
    rcases List.mem_cons.mp hmem with rfl | hmem
    · exact ⟨[], rest, by simp [TokenKind.text], rfl, by simp [TokenKind.text]⟩
    · obtain ⟨before, after, rfl, hstart, hstop⟩ := ih hmem
      refine ⟨word ++ before, after, by simp, ?_, hstop⟩
      simp [hstart, Text.byteSize_append, Nat.add_assoc]

/-- The text of an atom is a word. -/
theorem Lexes.isWord {text : String} {span : Span} (h : Lexes pos chars tokens)
    (hmem : ⟨.atom text, span⟩ ∈ tokens) : IsWord text := by
  induction h with
  | nil => simp at hmem
  | blank _ _ ih => exact ih hmem
  | paren hc _ ih =>
    rcases List.mem_cons.mp hmem with heq | hmem
    · cases heq
      exact absurd hc Token.paren?_ne_atom
    · exact ih hmem
  | word hne hword _ _ ih =>
    rcases List.mem_cons.mp hmem with heq | hmem
    · cases heq
      exact ⟨by simpa using hne, by simpa using hword⟩
    · exact ih hmem

/-- The span of a token is a range of the text. -/
theorem within_of_mem_tokenize {text : String} {token : Token}
    (h : token ∈ Token.tokenize text) : token.span.Within text.toList := by
  obtain ⟨before, after, htext, hstart, hstop⟩ := (lexes_tokenize text).covers h
  refine ⟨by omega, ⟨before, _, htext, by omega⟩, before ++ token.kind.text.toList, after, ?_, ?_⟩
  · rw [htext, List.append_assoc]
  · rw [Text.byteSize_append]
    omega

end TinyLisp
