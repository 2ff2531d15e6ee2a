import TinyLisp.Paren.Balance
import TinyLisp.Proofs.Expressions
import TinyLisp.Proofs.Lexing
import TinyLisp.Proofs.Sessions

/-!
# Parens that match

A text has a fault exactly if its parens do not match.  That can be told from the stack of open
parens, without expressions, and from their number alone, without tokens.

* `openParens`: the stack of open parens behind some tokens.
* `Stuck.faultOf_openParens` and `readAll_snd_eq`: the fault of tokens, as that stack has it.
* `parse_iff_openParens`: which fault a text has, and what is read in front of it.
* `Balance.scan_eq_of_lexes`: counting parens and keeping the stack come to the same.
* `Balance.ofText_iff_parse`: the balance of a text says whether it can be read, and a stray
  paren is never mended.
-/

namespace TinyLisp

open Text (isBlank byteSize)
open Token (isAtomChar paren?)

namespace Reader

/-! ## The stack of open parens -/

/-- The parens that are open behind the tokens, the innermost first, if `opened` are open in
front of them.  If a `)` meets no open paren, it is the first such one. -/
def openParens (opened : List Span) : List Token → Except Span (List Span)
  | [] => .ok opened
  | ⟨.opening, span⟩ :: rest => openParens (span :: opened) rest
  | ⟨.closing, span⟩ :: rest =>
    match opened with
    | [] => .error span
    | _ :: outer => openParens outer rest
  | ⟨.atom _, _⟩ :: rest => openParens opened rest

/-- The fault of tokens that leave these parens open. -/
def faultOf : Except Span (List Span) → Option ReadError
  | .error span => some (.strayClose span)
  | .ok [] => none
  | .ok (innermost :: _) => some (.unclosed innermost)

variable {nodes : List Node} {tokens : List Token} {lists : List OpenList} {error : ReadError}

/-- Complete expressions close all that they open. -/
theorem Spells.openParens_append (h : Spells nodes tokens) (opened : List Span)
    (rest : List Token) : openParens opened (tokens ++ rest) = openParens opened rest := by
  induction h generalizing opened rest with
  | nil => rfl
  | atom _ ih => exact ih opened rest
  | list _ _ ihinner ih =>
    rw [List.cons_append, List.append_assoc, List.cons_append, openParens, ihinner, openParens]
    exact ih opened rest

/-- The parens of the open lists are open behind the tokens of these lists. -/
theorem Pending.openParens_eq (h : Pending lists tokens) (rest : List Token) :
    openParens [] (tokens ++ rest) = openParens (lists.map OpenList.paren) rest := by
  induction h generalizing rest with
  | nil => rfl
  | cons _ hchildren ih =>
    rw [List.append_assoc, List.cons_append, ih, openParens, hchildren.openParens_append]
    rfl

/-- The tokens of open lists begin with the paren of the outermost one. -/
theorem Pending.exists_outermost (h : Pending lists tokens) {outermost : Span}
    (hlast : (lists.map OpenList.paren).getLast? = some outermost) :
    ∃ after, tokens = ⟨.opening, outermost⟩ :: after := by
  induction h with
  | nil => simp at hlast
  | @cons list lists before inner houter _ ih =>
    cases lists with
    | nil =>
      cases houter
      cases hlast
      exact ⟨inner, rfl⟩
    | cons next lists =>
      obtain ⟨after, rfl⟩ := ih (by simpa using hlast)
      exact ⟨_, rfl⟩

/-- The reader is stuck where the stack has a fault. -/
theorem Stuck.faultOf_openParens (h : Stuck error tokens) :
    faultOf (openParens [] tokens) = some error := by
  cases h with
  | strayClose => rfl
  | unclosed hpending =>
    have hopen := hpending.openParens_eq []
    rw [List.append_nil] at hopen
    rw [hopen]
    rfl

/-- The first fault of tokens is that of the stack. -/
theorem readAll_snd_eq (tokens : List Token) :
    (readAll tokens).2 = faultOf (openParens [] tokens) := by
  obtain ⟨taken, rest, htokens, hnodes, hrest⟩ := readAll_spells tokens
  have hopen := hnodes.openParens_append [] rest
  rw [← htokens] at hopen
  rw [hopen]
  cases hfault : (readAll tokens).2 with
  | none =>
    rw [hfault] at hrest
    rw [hrest]
    rfl
  | some error =>
    rw [hfault] at hrest
    exact hrest.faultOf_openParens.symm

/-! ## The fault of a text -/

section Faults

variable {parens : Except Span (List Span)} {span : Span} {text : String}

theorem faultOf_eq_strayClose_iff :
    faultOf parens = some (.strayClose span) ↔ parens = .error span := by
  unfold faultOf
  split <;> simp

theorem faultOf_eq_unclosed_iff :
    faultOf parens = some (.unclosed span) ↔ ∃ outer, parens = .ok (span :: outer) := by
  unfold faultOf
  split <;> simp

theorem faultOf_eq_none_iff : faultOf parens = none ↔ parens = .ok [] := by
  unfold faultOf
  split <;> simp

theorem faultOf_ne_endOfInput : faultOf parens ≠ some .endOfInput := by
  unfold faultOf
  split <;> simp

theorem parse_eq_error_iff :
    parse text = .error error ↔ faultOf (openParens [] (Token.tokenize text)) = some error := by
  rw [← readAll_snd_eq, parse]
  split <;> simp_all

theorem exists_parse_eq_ok_iff :
    (∃ nodes, parse text = .ok nodes) ↔ faultOf (openParens [] (Token.tokenize text)) = none := by
  rw [← readAll_snd_eq, parse]
  split <;> simp_all

/-- In front of a `)` that closes nothing complete expressions are yielded, and then the fault. -/
theorem yields_of_openParens_error (h : openParens [] tokens = .error span) :
    ∃ nodes before after, tokens = before ++ ⟨.closing, span⟩ :: after ∧ Spells nodes before ∧
      Yields tokens (nodes.map .ok ++ [.error (.strayClose span)]) [] := by
  have hfault : (readAll tokens).2 = some (.strayClose span) := by
    rw [readAll_snd_eq, h]
    rfl
  obtain ⟨nodes, before, left, htokens, hnodes, hstuck, hyields⟩ := exists_stuck hfault
  cases hstuck with
  | strayClose => exact ⟨nodes, before, _, htokens, hnodes, hyields⟩

/-- In front of the outermost `(` that is never closed complete expressions are yielded, and then
the innermost one as the fault. -/
theorem yields_of_openParens_ok {outer : List Span}
    (h : openParens [] tokens = .ok (span :: outer)) :
    ∃ nodes before after,
      tokens = before ++ ⟨.opening, (span :: outer).getLast (List.cons_ne_nil _ _)⟩ :: after ∧
      Spells nodes before ∧ Yields tokens (nodes.map .ok ++ [.error (.unclosed span)]) [] := by
  have hfault : (readAll tokens).2 = some (.unclosed span) := by
    rw [readAll_snd_eq, h]
    rfl
  obtain ⟨nodes, before, left, htokens, hnodes, hstuck, hyields⟩ := exists_stuck hfault
  rw [htokens, hnodes.openParens_append] at h
  cases hstuck with
  | @unclosed list lists _ hpending =>
    have hopen := hpending.openParens_eq []
    rw [List.append_nil, h] at hopen
    cases hopen
    have hlast := List.getLast?_eq_some_getLast
      (List.cons_ne_nil list.paren (lists.map OpenList.paren))
    obtain ⟨after, rfl⟩ := hpending.exists_outermost hlast
    exact ⟨nodes, before, after, htokens, hnodes, hyields⟩

/-- A reader never finds the end of the input: it stops there. -/
theorem next?_ne_endOfInput (tokens rest : List Token) :
    next? tokens ≠ some (.error .endOfInput, rest) := by
  intro h
  obtain ⟨hne, hread, -⟩ := next?_eq_error_iff.mp h
  have hall := readAll_of_read_error hne hread
  exact faultOf_ne_endOfInput ((readAll_snd_eq tokens).symm.trans (congrArg Prod.snd hall))

end Faults

end Reader

theorem Session.eval_ne_endOfInput (depth : Nat) (session after : Session) (text : String) :
    session.eval depth text ≠ some (.error (.read .endOfInput), after) := by
  intro h
  obtain ⟨answer, store, -, hresult, -⟩ := Session.eval_eq_some_iff.mp h
  rcases sourceResult_eq_error hresult.symm with
    ⟨blamed, -, herror⟩ | ⟨value, stuck, -, hfault, herror⟩
  · cases herror
  · cases herror
    exact Reader.faultOf_ne_endOfInput ((Reader.readAll_snd_eq _).symm.trans hfault)

namespace Reader

/-- The faults of a text are those of its parens.  If a `)` meets no open paren, then the first
such one is the fault; or else, if parens are open at the end, then the innermost one; or else
there is none.  What is yielded in front of a fault is the complete expressions up to the `)`, or
up to the outermost `(` that is open.  It is never a fault that there is no token left. -/
theorem parse_iff_openParens (text : String) :
    (∀ span, parse text = .error (.strayClose span) ↔
      openParens [] (Token.tokenize text) = .error span) ∧
    (∀ span, parse text = .error (.unclosed span) ↔
      ∃ outer, openParens [] (Token.tokenize text) = .ok (span :: outer)) ∧
    ((∃ nodes, parse text = .ok nodes) ↔ openParens [] (Token.tokenize text) = .ok []) ∧
    (∀ span, openParens [] (Token.tokenize text) = .error span →
      ∃ nodes before after, Token.tokenize text = before ++ ⟨.closing, span⟩ :: after ∧
        Spells nodes before ∧
        Yields (Token.tokenize text) (nodes.map .ok ++ [.error (.strayClose span)]) []) ∧
    (∀ innermost outer, openParens [] (Token.tokenize text) = .ok (innermost :: outer) →
      ∃ nodes before after,
        Token.tokenize text = before ++
          ⟨.opening, (innermost :: outer).getLast (List.cons_ne_nil _ _)⟩ :: after ∧
        Spells nodes before ∧
        Yields (Token.tokenize text) (nodes.map .ok ++ [.error (.unclosed innermost)]) []) ∧
    (∀ tokens rest, next? tokens ≠ some (.error .endOfInput, rest)) ∧
    parse text ≠ .error .endOfInput ∧
    ∀ depth session after,
      Session.eval depth session text ≠ some (.error (.read .endOfInput), after) := by
  refine ⟨?_, ?_, ?_, ?_, ?_, next?_ne_endOfInput, ?_, ?_⟩
  · intro span
    rw [parse_eq_error_iff, faultOf_eq_strayClose_iff]
  · intro span
    rw [parse_eq_error_iff, faultOf_eq_unclosed_iff]
  · rw [exists_parse_eq_ok_iff, faultOf_eq_none_iff]
  · intro span h
    exact yields_of_openParens_error h
  · intro innermost outer h
    exact yields_of_openParens_ok h
  · rw [ne_eq, parse_eq_error_iff]
    exact faultOf_ne_endOfInput
  · intro depth session after
    exact Session.eval_ne_endOfInput depth session after text

/-- After `a` the first of two stray parens is the fault of one text, and after `()` the innermost
of two open parens is the fault of the other. -/
theorem yields_stray_and_open :
    openParens [] (Token.tokenize "a) )") = .error ⟨1, 2⟩ ∧
      (∃ nodes before after, Token.tokenize "a) )" = before ++ ⟨.closing, ⟨1, 2⟩⟩ :: after ∧
        Spells nodes before ∧
        Yields (Token.tokenize "a) )")
          (nodes.map .ok ++ [.error (.strayClose ⟨1, 2⟩)]) []) ∧
      openParens [] (Token.tokenize "()(é (") = .ok [⟨6, 7⟩, ⟨2, 3⟩] ∧
      ∃ nodes before after, Token.tokenize "()(é (" = before ++ ⟨.opening, ⟨2, 3⟩⟩ :: after ∧
        Spells nodes before ∧
        Yields (Token.tokenize "()(é (") (nodes.map .ok ++ [.error (.unclosed ⟨6, 7⟩)]) [] := by
  have hstray : openParens [] (Token.tokenize "a) )") = .error ⟨1, 2⟩ := by rfl
  have hopen : openParens [] (Token.tokenize "()(é (") = .ok [⟨6, 7⟩, ⟨2, 3⟩] := by rfl
  obtain ⟨-, -, -, hyields, -⟩ := parse_iff_openParens "a) )"
  obtain ⟨-, -, -, -, hyields', -⟩ := parse_iff_openParens "()(é ("
  exact ⟨hstray, hyields _ hstray, hopen, hyields' _ _ hopen⟩

end Reader

/-! ## Counting parens -/

namespace Balance

open Reader (openParens)

/-- The balance of tokens that leave these parens open. -/
def ofParens : Except Span (List Span) → Balance
  | .error span => .stray span.start
  | .ok [] => .balanced
  | .ok (_ :: _) => .unclosed

variable {pos depth : Nat} {c : Char} {rest : List Char}

theorem scan_of_paren?_eq_none (h : paren? c = none) :
    scan pos depth (c :: rest) = scan (pos + c.utf8Size) depth rest := by
  obtain ⟨hopening, hclosing⟩ := Token.paren?_eq_none_iff.mp h
  cases depth <;> simp [scan, hopening, hclosing]

theorem scan_append_of_isAtomChar {word : List Char} (h : ∀ c ∈ word, isAtomChar c = true) :
    scan pos depth (word ++ rest) = scan (pos + byteSize word) depth rest := by
  induction word generalizing pos with
  | nil => rfl
  | cons c later ih =>
    have hc := Token.paren?_eq_none_of_isAtomChar (h c List.mem_cons_self)
    rw [List.cons_append, scan_of_paren?_eq_none hc,
      ih fun d hd => h d (List.mem_cons_of_mem _ hd)]
    simp [byteSize, Nat.add_assoc]

/-- Counting the open parens of characters comes to the same as keeping the stack of those of
their tokens. -/
theorem scan_eq_of_lexes {chars : List Char} {tokens : List Token} (h : Lexes pos chars tokens)
    (opened : List Span) :
    scan pos opened.length chars = ofParens (openParens opened tokens) := by
  induction h generalizing opened with
  | nil => cases opened <;> rfl
  | blank hc _ ih => rw [scan_of_paren?_eq_none (Token.paren?_of_isBlank hc), ih]
  | @paren pos c kind rest tokens hc _ ih =>
    unfold paren? at hc
    split at hc
    · cases hc
      subst_vars
      exact ih (_ :: opened)
    · split at hc
      · cases hc
        subst_vars
        cases opened with
        | nil => rfl
        | cons _ outer => exact ih outer
      · cases hc
  | word _ hword _ _ ih => rw [scan_append_of_isAtomChar hword, ih, openParens]

theorem ofText_eq (text : String) :
    ofText text = ofParens (openParens [] (Token.tokenize text)) :=
  scan_eq_of_lexes (lexes_tokenize text) []

/-! ## What follows a text -/

/-- Behind some characters the scan has found a stray paren, or it goes on with what follows. -/
theorem scan_append_cases (pos depth : Nat) (chars : List Char) :
    (∃ offset, ∀ more, scan pos depth (chars ++ more) = .stray offset) ∨
      ∃ left, ∀ more, scan pos depth (chars ++ more) = scan (pos + byteSize chars) left more := by
  induction chars generalizing pos depth with
  | nil => exact .inr ⟨depth, fun _ => rfl⟩
  | cons c rest ih =>
    -- Only with no paren open can the character be a stray one.
    cases depth <;> simp only [List.cons_append, scan, byteSize, ← Nat.add_assoc]
    case zero =>
      split
      · exact ih _ _
      · split
        · exact .inl ⟨pos, fun _ => rfl⟩
        · exact ih _ _
    case succ depth =>
      split
      · exact ih _ _
      · split
        · exact ih _ _
        · exact ih _ _

theorem scan_closings (pos depth : Nat) :
    scan pos depth (List.replicate depth ')') = .balanced := by
  induction depth generalizing pos with
  | zero => rfl
  | succ depth ih => exact ih _

variable {text : String}

/-- What follows a stray paren does not mend it. -/
theorem ofText_append_of_eq_stray {offset : Nat} (h : ofText text = .stray offset)
    (more : String) : ofText (text ++ more) = .stray offset := by
  rw [ofText] at h
  rw [ofText, String.toList_append]
  rcases scan_append_cases 0 0 text.toList with ⟨first, hfirst⟩ | ⟨left, hleft⟩
  · have hempty := hfirst []
    rw [List.append_nil, h] at hempty
    rw [hfirst, hempty]
  · have hempty := hleft []
    rw [List.append_nil, h, scan] at hempty
    split at hempty <;> cases hempty

/-- Closing parens complete a text in which parens are open. -/
theorem exists_ofText_append_eq_balanced (h : ofText text = .unclosed) :
    ∃ more, ofText (text ++ more) = .balanced := by
  rw [ofText] at h
  rcases scan_append_cases 0 0 text.toList with ⟨first, hfirst⟩ | ⟨left, hleft⟩
  · have hempty := hfirst []
    rw [List.append_nil, h] at hempty
    cases hempty
  · refine ⟨String.ofList (List.replicate left ')'), ?_⟩
    rw [ofText, String.toList_append, String.toList_ofList, hleft]
    exact scan_closings _ left

/-! ## Balance and reading -/

section

variable {parens : Except Span (List Span)}

theorem ofParens_eq_balanced_iff : ofParens parens = .balanced ↔ parens = .ok [] := by
  unfold ofParens
  split <;> simp

theorem ofParens_eq_unclosed_iff :
    ofParens parens = .unclosed ↔ ∃ span outer, parens = .ok (span :: outer) := by
  unfold ofParens
  split <;> simp

theorem ofParens_eq_stray_iff {offset : Nat} :
    ofParens parens = .stray offset ↔ ∃ span, parens = .error span ∧ span.start = offset := by
  unfold ofParens
  split <;> simp

end

/-- The stray paren of a text is the `)` at which the reader fails. -/
theorem ofText_eq_stray_iff {text : String} {offset : Nat} : ofText text = .stray offset ↔
    ∃ span, Reader.parse text = .error (.strayClose span) ∧ span.start = offset := by
  simp only [ofText_eq, ofParens_eq_stray_iff, Reader.parse_eq_error_iff,
    Reader.faultOf_eq_strayClose_iff]

/-- Parens balance exactly if the text can be read, and a text that cannot be read has the fault
that its balance says: a `(` that is open, or a `)` at the offset of the stray one.  Whatever
follows a stray paren, it stays where it is, and what has open parens can be completed. -/
theorem ofText_iff_parse (text : String) :
    (ofText text = .balanced ↔ ∃ nodes, Reader.parse text = .ok nodes) ∧
    (ofText text = .unclosed ↔ ∃ span, Reader.parse text = .error (.unclosed span)) ∧
    (∀ offset, ofText text = .stray offset ↔
      ∃ span, Reader.parse text = .error (.strayClose span) ∧ span.start = offset) ∧
    (∀ offset, ofText text = .stray offset → ∀ more, ofText (text ++ more) = .stray offset) ∧
    (ofText text = .unclosed → ∃ more, ofText (text ++ more) = .balanced) := by
  refine ⟨?_, ?_, fun _ => ofText_eq_stray_iff, fun _ => ofText_append_of_eq_stray,
    exists_ofText_append_eq_balanced⟩
  · rw [ofText_eq, ofParens_eq_balanced_iff, Reader.exists_parse_eq_ok_iff,
      Reader.faultOf_eq_none_iff]
  · simp only [ofText_eq, ofParens_eq_unclosed_iff, Reader.parse_eq_error_iff,
      Reader.faultOf_eq_unclosed_iff]

/-- A stray paren behind a letter of two bytes, and two open parens around an atom. -/
theorem ofText_append_stray_and_open :
    ofText "é)(" = .stray 2 ∧ (∀ more, ofText ("é)(" ++ more) = .stray 2) ∧
      ofText "(a(b" = .unclosed ∧ ∃ more, ofText ("(a(b" ++ more) = .balanced := by
  have hstray : ofText "é)(" = .stray 2 := by rfl
  have hopen : ofText "(a(b" = .unclosed := by rfl
  obtain ⟨-, -, -, hstays, -⟩ := ofText_iff_parse "é)("
  obtain ⟨-, -, -, -, hcompletes⟩ := ofText_iff_parse "(a(b"
  exact ⟨hstray, hstays 2 hstray, hopen, hcompletes hopen⟩

end Balance

end TinyLisp
