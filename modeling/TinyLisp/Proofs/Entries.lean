import Mathlib.Data.List.Infix
import Mathlib.Data.List.TakeWhile
import TinyLisp.Proofs.Attribution
import TinyLisp.Proofs.Layout
import TinyLisp.Proofs.Parens
import TinyLisp.Repl.Run

/-!
# The entries of an interactive session

Lines of input fall into groups, each of them the shortest one whose parens balance.  The entries
are the texts of the groups, and a stray paren ends them for good.

* `trim_parses`: what is trimmed off a text is nothing that the reader sees.
* `Shortest`, `Unbalanced` and `Segments`: how lines fall into groups.
* `entries_of_stray`, `entries_of_unbalanced` and `entries_of_shortest`: what the lines of a group,
  and those that are no group, add to the entries.
* `feedAll_follows`: a session evaluates the entries in order, and nothing else.
-/

namespace TinyLisp

open Evaluation
open Text (isBlank byteSize trim)

/-! ## Blanks around a text -/

/-- Blanks behind a text change none of its tokens. -/
theorem tokenize_append_blanks {blanks : String} (h : Blank blanks) (text : String) :
    Token.tokenize (text ++ blanks) = Token.tokenize text := by
  have hblanks : ∀ pos, Lexes pos blanks.toList [] := fun pos => by
    have hlexes : Lexes pos (blanks.toList ++ []) [] := .blanks_append h .nil
    simpa using hlexes
  have hend : EndsWord blanks.toList := fun c hc =>
    Token.isAtomChar_of_isBlank (h c (List.mem_of_mem_head? hc))
  have happend := (lexes_tokenize text).append hend (hblanks _)
  rw [List.append_nil, ← String.toList_append] at happend
  exact happend.scan_eq

/-- A text without tokens is blank. -/
theorem Lexes.isBlank {pos : Nat} {chars : List Char} {tokens : List Token}
    (h : Lexes pos chars tokens) (hnil : tokens = []) : ∀ c ∈ chars, isBlank c = true := by
  induction h with
  | nil => simp
  | blank hc _ ih =>
    intro d hd
    rcases List.mem_cons.mp hd with rfl | hd
    · exact hc
    · exact ih hnil d hd
  | paren => cases hnil
  | word => cases hnil

namespace Text

/-- A trimmed text is the text up to blanks. -/
theorem exists_eq_trim (text : String) :
    ∃ front back, Blank front ∧ Blank back ∧ text = front ++ (trim text ++ back) := by
  have hback : ∀ chars : List Char, chars.takeWhile isBlank ++ chars.dropWhile isBlank = chars :=
    fun chars => List.takeWhile_append_dropWhile
  refine ⟨String.ofList (text.toList.takeWhile isBlank),
    String.ofList ((text.toList.dropWhile isBlank).reverse.takeWhile isBlank).reverse, ?_, ?_, ?_⟩
  · intro c hc
    rw [String.toList_ofList] at hc
    exact List.mem_takeWhile_imp hc
  · intro c hc
    rw [String.toList_ofList, List.mem_reverse] at hc
    exact List.mem_takeWhile_imp hc
  · apply String.toList_injective
    simp only [trim, trimEnd, String.toList_append, String.toList_ofList, ← List.reverse_append,
      hback, List.reverse_reverse]

/-- A trimmed text is empty if it is blank. -/
theorem not_blank_trim {text : String} (h : trim text ≠ "") : ¬ Blank (trim text) := by
  intro hblank
  have hne : (text.toList.dropWhile isBlank).reverse.dropWhile isBlank ≠ [] := by
    intro hnil
    exact h (by rw [trim, trimEnd, hnil]; rfl)
  have hhead := List.head_dropWhile_not isBlank hne
  rw [hblank _ (by simp [trim, trimEnd])] at hhead
  cases hhead

end Text

/-- A text has its forms between the blanks at its ends. -/
theorem trim_parses {text : String} (hbalanced : Balance.ofText text = .balanced)
    (hne : trim text ≠ "") : ∃ node rest, Reader.parse (trim text) = .ok (node :: rest) := by
  obtain ⟨front, back, hfront, hback, htext⟩ := Text.exists_eq_trim text
  have hfault : Session.fault? text = none := by
    rwa [Balance.ofText_eq, Balance.ofParens_eq_balanced_iff, ← Reader.faultOf_eq_none_iff,
      ← Reader.readAll_snd_eq] at hbalanced
  rw [htext, Session.fault?_blanks_append hfront, Option.map_eq_none_iff, Session.fault?,
    tokenize_append_blanks hback, Reader.readAll_snd_eq] at hfault
  obtain ⟨nodes, hparse⟩ := Reader.exists_parse_eq_ok_iff.mpr hfault
  cases nodes with
  | cons node rest => exact ⟨node, rest, hparse⟩
  | nil =>
    -- No node has no token, so there would be nothing but blanks.
    have hspells := Reader.parse_eq_ok_iff.mp hparse
    generalize htokens : Token.tokenize (trim text) = tokens at hspells
    cases hspells
    exact absurd ((lexes_tokenize _).isBlank htokens) (Text.not_blank_trim hne)

/-- A text with a form gives a value, unless the evaluation fails. -/
theorem Session.eval_of_parse_cons {depth : Nat} {session after : Session} {text : String}
    {node : Node} {rest : List Node} {result : SourceResult}
    (hparse : Reader.parse text = .ok (node :: rest))
    (heval : session.eval depth text = some (result, after)) :
    (∃ value, result = .ok (some value)) ∨ ∃ error, result = .error (.eval error) := by
  have hread := Reader.readAll_eq_none_iff.mpr (Reader.parse_eq_ok_iff.mp hparse)
  obtain ⟨answer, store, hforms, hresult, -⟩ := Session.eval_eq_some_iff.mp heval
  rw [forms, hread, evalForms, bind_apply] at hforms
  rw [fault?, hread] at hresult
  rcases hfirst : TinyLisp.eval depth session.root node session.store with
    _ | ⟨_ | value, between⟩ <;> rw [hfirst] at hforms
  · cases hforms
  · cases hforms
    exact .inr ⟨_, hresult⟩
  · have hrest : evalForms depth session.root (some value) rest between = some (answer, store) :=
      hforms
    have hlater := evalForms_or depth session.root none (some value) rest between
    rw [Option.none_or, hrest] at hlater
    obtain ⟨later, -, heq⟩ := Option.map_eq_some_iff.mp hlater.symm
    obtain ⟨answer | found, after⟩ := later
    · cases heq
      exact .inr ⟨_, hresult⟩
    · cases heq
      cases found <;> exact .inl ⟨_, hresult⟩

namespace Repl

open Balance (ofText)

/-! ## Groups of lines -/

/-- The text of some lines, with the ends of all but the last one. -/
def joined : List InputLine → String
  | [] => ""
  | [line] => line.text
  | line :: rest => line.text ++ line.ending ++ joined rest

/-- The text of some lines with all line ends, to which more lines are added. -/
def pending (lines : List InputLine) : String :=
  String.join (lines.map fun line => line.text ++ line.ending)

/-- No lines in front have a text whose parens balance. -/
def Unbalanced (lines : List InputLine) : Prop :=
  ∀ front, front <+: lines → front ≠ [] → ofText (joined front) ≠ .balanced

instance (lines : List InputLine) : Decidable (Unbalanced lines) :=
  decidable_of_iff (∀ front ∈ lines.inits, front ≠ [] → ofText (joined front) ≠ .balanced) (by
    simp only [Unbalanced, List.mem_inits])

/-- The parens of the lines balance, and those of fewer lines do not. -/
structure Shortest (group : List InputLine) : Prop where
  ne_nil : group ≠ []
  balanced : ofText (joined group) = .balanced
  unbalanced : Unbalanced group.dropLast

/-- The lines are those of the groups and a rest that completes no group. -/
structure Segments (lines : List InputLine) (groups : List (List InputLine))
    (rest : List InputLine) : Prop where
  eq_append : lines = groups.flatten ++ rest
  shortest : ∀ group ∈ groups, Shortest group
  unbalanced : Unbalanced rest

/-- The entries of texts: they are trimmed, blank ones are left out, and the first `exit` ends
them. -/
def entriesOf (texts : List String) : List String :=
  ((texts.map trim).filter fun text => text ≠ "").takeWhile fun text => !isExit text

variable {lines rest more : List InputLine} {line : InputLine} {buffer : String}

theorem joined_concat (lines : List InputLine) (line : InputLine) :
    joined (lines ++ [line]) = pending lines ++ line.text := by
  induction lines with
  | nil => simp [joined, pending]
  | cons first later ih =>
    have hjoined : joined (first :: (later ++ [line])) =
        first.text ++ first.ending ++ joined (later ++ [line]) := by
      cases later <;> rfl
    rw [List.cons_append, hjoined, ih]
    simp [pending, String.append_assoc]

theorem Unbalanced.of_append (h : Unbalanced (lines ++ more)) : Unbalanced lines :=
  fun front hfront hne => h front (hfront.trans (List.prefix_append _ _)) hne

theorem unbalanced_nil : Unbalanced [] :=
  fun _ hfront hne => absurd (List.prefix_nil.mp hfront) hne

theorem unbalanced_concat_iff :
    Unbalanced (lines ++ [line]) ↔
      Unbalanced lines ∧ ofText (joined (lines ++ [line])) ≠ .balanced := by
  constructor
  · intro h
    exact ⟨h.of_append, h _ (List.prefix_refl _) (by simp)⟩
  · rintro ⟨hlines, hall⟩ front hfront hne
    rcases List.prefix_concat_iff.mp hfront with rfl | hfront
    · exact hall
    · exact hlines front hfront hne

/-- Lines fall into groups. -/
theorem exists_segments (lines : List InputLine) : ∃ groups rest, Segments lines groups rest := by
  -- The induction runs over the lines behind some that have completed no group so far.
  suffices h : ∀ more read, Unbalanced read → ∃ groups rest, Segments (read ++ more) groups rest
    from h lines [] unbalanced_nil
  intro more
  induction more with
  | nil => exact fun read hread => ⟨[], read, by simp, by simp, hread⟩
  | cons line later ih =>
    intro read hread
    by_cases hbalanced : ofText (joined (read ++ [line])) = .balanced
    · obtain ⟨groups, rest, heq, hgroups, hrest⟩ := ih [] unbalanced_nil
      refine ⟨(read ++ [line]) :: groups, rest, by simpa using heq, ?_, hrest⟩
      rintro group hgroup
      rcases List.mem_cons.mp hgroup with rfl | hgroup
      · exact ⟨by simp, hbalanced, by simpa using hread⟩
      · exact hgroups group hgroup
    · simpa using ih (read ++ [line]) (unbalanced_concat_iff.mpr ⟨hread, hbalanced⟩)

/-! ## What lines add to the entries -/

theorem addLine_of_balanced (h : ofText (buffer ++ line.text) = .balanced) :
    addLine buffer line =
      if trim (buffer ++ line.text) = "" then .blank else .entry (trim (buffer ++ line.text)) := by
  simp only [addLine, h, String.isEmpty_iff]

theorem addLine_of_unclosed (h : ofText (buffer ++ line.text) = .unclosed) :
    addLine buffer line = .unfinished (buffer ++ line.text ++ line.ending) := by
  simp only [addLine, h]

theorem addLine_of_stray {offset : Nat} (h : ofText (buffer ++ line.text) = .stray offset) :
    addLine buffer line = .rejected offset (buffer ++ line.text) := by
  simp only [addLine, h]

/-- Behind a stray paren there is no entry. -/
theorem entries_of_stray {offset : Nat} (h : ofText buffer = .stray offset)
    (lines : List InputLine) : entries buffer lines = [] := by
  induction lines generalizing buffer with
  | nil => rfl
  | cons line rest ih =>
    have hline := Balance.ofText_append_of_eq_stray h line.text
    rw [entries, addLine_of_stray hline]
    exact ih hline

/-- A line after which parens do not balance is added to the buffer. -/
theorem entries_of_not_balanced (h : ofText (buffer ++ line.text) ≠ .balanced)
    (rest : List InputLine) :
    entries buffer (line :: rest) = entries (buffer ++ line.text ++ line.ending) rest := by
  cases hline : ofText (buffer ++ line.text) with
  | balanced => exact absurd hline h
  | unclosed => rw [entries, addLine_of_unclosed hline]
  | stray offset =>
    -- The line end is not added here, but there is no entry with it either.
    have hending := Balance.ofText_append_of_eq_stray hline line.ending
    rw [entries, addLine_of_stray hline, entries_of_stray hending]
    exact entries_of_stray hline rest

/-- A line after which parens balance completes an entry. -/
theorem entries_of_balanced (h : ofText (buffer ++ line.text) = .balanced)
    (rest : List InputLine) :
    entries buffer (line :: rest) =
      if trim (buffer ++ line.text) = "" then entries "" rest
      else if isExit (trim (buffer ++ line.text)) then []
      else trim (buffer ++ line.text) :: entries "" rest := by
  rw [entries, addLine_of_balanced h]
  by_cases hblank : trim (buffer ++ line.text) = ""
  · simp only [if_pos hblank]
  · simp only [if_neg hblank]

theorem entries_of_unbalanced (h : Unbalanced lines) (rest : List InputLine) :
    entries "" (lines ++ rest) = entries (pending lines) rest := by
  induction lines using List.reverseRecOn generalizing rest with
  | nil => rfl
  | append_singleton lines line ih =>
    obtain ⟨hlines, hall⟩ := unbalanced_concat_iff.mp h
    rw [joined_concat] at hall
    rw [List.append_assoc, ih hlines, List.singleton_append, entries_of_not_balanced hall]
    simp [pending, String.append_assoc]

/-- A group gives one entry, unless it is blank. -/
theorem entries_of_shortest {group : List InputLine} (h : Shortest group)
    (rest : List InputLine) :
    entries "" (group ++ rest) =
      if trim (joined group) = "" then entries "" rest
      else if isExit (trim (joined group)) then []
      else trim (joined group) :: entries "" rest := by
  obtain ⟨front, last, rfl⟩ := (List.eq_nil_or_concat' group).resolve_left h.ne_nil
  have hfront : Unbalanced front := by simpa using h.unbalanced
  have hbalanced := h.balanced
  rw [joined_concat] at hbalanced ⊢
  rw [List.append_assoc, entries_of_unbalanced hfront, List.singleton_append,
    entries_of_balanced hbalanced]

theorem entriesOf_cons (text : String) (texts : List String) :
    entriesOf (text :: texts) =
      if trim text = "" then entriesOf texts
      else if isExit (trim text) then []
      else trim text :: entriesOf texts := by
  by_cases hblank : trim text = ""
  · simp [entriesOf, hblank]
  · cases hexit : isExit (trim text) <;> simp [entriesOf, hblank, hexit]

/-- The groups of lines give the entries. -/
theorem entries_of_segments {groups : List (List InputLine)} (h : Segments lines groups rest) :
    entries "" lines = entriesOf (groups.map joined) := by
  obtain ⟨rfl, hgroups, hrest⟩ := h
  induction groups with
  | nil =>
    have hend := entries_of_unbalanced hrest []
    rw [List.append_nil] at hend
    exact hend
  | cons group groups ih =>
    rw [List.flatten_cons, List.append_assoc,
      entries_of_shortest (hgroups group List.mem_cons_self),
      ih fun other hother => hgroups other (List.mem_cons_of_mem _ hother), List.map_cons,
      entriesOf_cons]

/-- Every entry is read as one form or more. -/
theorem exists_parse_of_mem_entries {text : String} (h : text ∈ entries buffer lines) :
    ∃ node rest, Reader.parse text = .ok (node :: rest) := by
  induction lines generalizing buffer with
  | nil => cases h
  | cons line rest ih =>
    by_cases hbalanced : ofText (buffer ++ line.text) = .balanced
    · rw [entries_of_balanced hbalanced] at h
      split_ifs at h with hblank
      · exact ih h
      · cases h
      · rcases List.mem_cons.mp h with rfl | h
        · exact trim_parses hbalanced hblank
        · exact ih h
    · rw [entries_of_not_balanced hbalanced] at h
      exact ih h

/-! ## What a session evaluates -/

/-- The lines of input in front of the first one that is no text. -/
def linesOf : List Input → List InputLine
  | .line line :: rest => line :: linesOf rest
  | _ => []

/-- Evaluates entries in order. -/
def enterAll (depth : Nat) (state : State) : List String → Option State
  | [] => some state
  | text :: rest =>
    match enter depth state text with
    | none => none
    | some state => enterAll depth state rest

/-- Nothing but complaints came about since the earlier state. -/
structure State.Follows (state earlier : State) : Prop where
  session_eq : state.session = earlier.session
  output_eq : state.console.output = earlier.console.output
  errors_eq : ∃ complaints, state.console.errors = earlier.console.errors ++ complaints

variable {state other : State}

theorem State.Follows.of_eq (hsession : state.session = other.session)
    (hconsole : state.console = other.console) : state.Follows other :=
  ⟨hsession, by rw [hconsole], "", by rw [hconsole, String.append_empty]⟩

theorem State.Follows.complain (h : state.Follows other) (text buffer : String) :
    State.Follows { state with buffer, console := state.console.complain text } other := by
  obtain ⟨complaints, herrors⟩ := h.errors_eq
  exact ⟨h.session_eq, h.output_eq, complaints ++ text, by
    rw [Console.complain, herrors, String.append_assoc]⟩

/-- Behind a stray paren there are only complaints. -/
theorem feedAll_of_stray {offset : Nat} (h : ofText state.buffer = .stray offset) (depth : Nat)
    (hfollows : state.Follows other) (inputs : List Input) :
    ∃ final, feedAll depth state inputs = some final ∧ final.Follows other := by
  induction inputs generalizing state with
  | nil => exact ⟨state, rfl, hfollows⟩
  | cons input rest ih =>
    cases input with
    | undecodable => exact ⟨_, rfl, hfollows.complain _ _⟩
    | line line =>
      have hline := Balance.ofText_append_of_eq_stray h line.text
      have hfeed : feed depth state (.line line) = some (.goOn { state with
          buffer := state.buffer ++ line.text,
          console := state.console.complain (rejection offset) }) := by
        rw [feed, addLine_of_stray hline]
      rw [feedAll, hfeed]
      exact ih hline (hfollows.complain _ _)

/-- What an entry does comes from the session and the console. -/
theorem enter_congr (depth : Nat) (text : String) (hsession : state.session = other.session)
    (hconsole : state.console = other.console) :
    Option.Rel (fun next reached => next.session = reached.session ∧
        next.console = reached.console ∧ next.buffer = state.buffer)
      (enter depth state text) (enter depth other text) := by
  rw [enter, enter, hsession, hconsole]
  cases other.session.evalLogged depth text other.console with
  | none => exact .none
  | some outcome => exact .some ⟨rfl, rfl, rfl⟩

/-- A session evaluates the entries that its input has, in order, and nothing else. -/
theorem feedAll_follows (depth : Nat) (inputs : List Input)
    (hsession : state.session = other.session) (hconsole : state.console = other.console) :
    Option.Rel State.Follows (feedAll depth state inputs)
      (enterAll depth other (entries state.buffer (linesOf inputs))) := by
  induction inputs generalizing state other with
  | nil => exact .some (.of_eq hsession hconsole)
  | cons input rest ih =>
    have hfollows : state.Follows other := .of_eq hsession hconsole
    cases input with
    | undecodable => exact .some (hfollows.complain _ _)
    | line line =>
      cases hline : ofText (state.buffer ++ line.text) with
      | unclosed =>
        rw [feedAll, feed, linesOf, entries, addLine_of_unclosed hline]
        exact ih hsession hconsole
      | stray offset =>
        have hrejected := hfollows.complain (rejection offset) (state.buffer ++ line.text)
        obtain ⟨final, hfinal, hlast⟩ := feedAll_of_stray hline depth hrejected rest
        rw [feedAll, feed, linesOf, entries, addLine_of_stray hline]
        dsimp only
        rw [hfinal, entries_of_stray hline]
        exact .some hlast
      | balanced =>
        rw [feedAll, feed, linesOf, entries_of_balanced hline, addLine_of_balanced hline]
        generalize trim (state.buffer ++ line.text) = text
        by_cases hblank : text = ""
        · simp only [if_pos hblank]
          exact ih hsession hconsole
        · simp only [if_neg hblank]
          cases isExit text with
          | true => exact .some (.of_eq hsession hconsole)
          | false =>
            have hboth : Option.Rel _ (enter depth { state with
                buffer := "", history := state.history.add text } text) (enter depth other text) :=
              enter_congr depth text hsession hconsole
            simp only [Bool.false_eq_true, if_false, enterAll]
            generalize enter depth { state with
              buffer := "", history := state.history.add text } text = next at hboth ⊢
            generalize enter depth other text = reached at hboth ⊢
            cases hboth with
            | none => exact .none
            | some hnext =>
              obtain ⟨hsession, hconsole, hbuffer⟩ := hnext
              have hrest := ih hsession hconsole
              rw [hbuffer] at hrest
              exact hrest

/-- Behind a blank line there are an entry of two lines, an `exit` and a line that is not read. -/
def fourGroups : List (List InputLine) :=
  [[⟨" ", "\n"⟩], [⟨"(f", "\r\n"⟩, ⟨" x) ", "\n"⟩], [⟨"EXIT", "\n"⟩], [⟨"y", ""⟩]]

end Repl

end TinyLisp
