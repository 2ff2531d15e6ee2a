import TinyLisp.Completion
import TinyLisp.Proofs.Chains
import TinyLisp.Proofs.Readback
import TinyLisp.Proofs.Tokenization

/-!
# Names that complete an atom

A candidate is what is missing from the stem in front of the cursor to a name that is found in the
session, or to a keyword.  Put in at the cursor, it makes the stem that name, and the name is read
as a symbol.

* `Completion.IsStem`: the stem, said of characters.
* `IsStem.getLast?_tokenize_append`: what is put in behind a stem makes one atom with it.  With
  nothing put in this says that the stem is the atom at the cursor, `IsStem.stem?_eq`.
* `Completion.mem_candidates_iff` and `Completion.pairwise_candidates`: the candidates.
* `Session.Reached.mem_names_iff`: the names of a session are those that are found in it, and
  `Session.Reached.isName_of_find?`: each of them is read as a symbol.
-/

namespace TinyLisp

open Text (byteSize takeBytes)
open Token (isAtomChar)

/-- The bytes of the front of some characters are those characters. -/
theorem Text.takeBytes_byteSize_append (front rest : List Char) :
    takeBytes (byteSize front) (front ++ rest) = front := by
  induction front with
  | nil =>
    cases rest with
    | nil => rfl
    | cons c rest =>
      have hsize := c.utf8Size_pos
      rw [List.nil_append, takeBytes, byteSize, if_neg (by omega)]
  | cons c front ih =>
    rw [List.cons_append, takeBytes, byteSize, if_pos (Nat.le_add_right _ _),
      Nat.add_sub_cancel_left, ih]

namespace Completion

variable {before after stem name missing : String} {front word chars : List Char}
  {tokens : List Token}

/-! ## The stem -/

/-- The stem is the longest piece at the end of the text that has no blank and no paren in it. -/
structure IsStem (before stem : String) : Prop where
  suffix : stem.toList <:+ before.toList
  isAtomChar : ∀ c ∈ stem.toList, isAtomChar c = true
  length_le : ∀ other, other <:+ before.toList → (∀ c ∈ other, Token.isAtomChar c = true) →
    other.length ≤ stem.toList.length

/-- Characters end in a word, which may be empty, and in front of it in a blank or a paren. -/
theorem exists_front_word (chars : List Char) :
    ∃ front word, chars = front ++ word ∧ (∀ c ∈ front.getLast?, isAtomChar c = false) ∧
      ∀ c ∈ word, isAtomChar c = true := by
  induction chars using List.reverseRecOn with
  | nil => exact ⟨[], [], rfl, by simp, by simp⟩
  | append_singleton chars c ih =>
    obtain ⟨front, word, rfl, hlast, hword⟩ := ih
    cases hc : isAtomChar c with
    | true =>
      refine ⟨front, word ++ [c], by simp, hlast, fun d hd => ?_⟩
      rcases List.mem_append.mp hd with hd | hd
      · exact hword d hd
      · rw [List.mem_singleton.mp hd, hc]
    | false => exact ⟨front ++ word ++ [c], [], by simp, by simp [hc], by simp⟩

/-- No longer piece at the end is a word if a blank or a paren stands in front of the word. -/
theorem length_le_of_suffix {other : List Char} (hsuffix : other <:+ front ++ word)
    (hother : ∀ c ∈ other, isAtomChar c = true)
    (hlast : ∀ c ∈ front.getLast?, isAtomChar c = false) : other.length ≤ word.length := by
  by_contra hlong
  obtain ⟨more, rfl⟩ := List.suffix_of_suffix_length_le (List.suffix_append front word) hsuffix
    (by omega)
  obtain ⟨others, heq⟩ := hsuffix
  rw [← List.append_assoc] at heq
  have hfront : others ++ more = front := List.append_cancel_right heq
  have hne : more ≠ [] := by
    rintro rfl
    exact hlong (Nat.le_refl _)
  -- The last character in front of the word is one of the longer piece.
  have hatom := hother (more.getLast hne) (List.mem_append_left _ (List.getLast_mem hne))
  have hend := hlast (more.getLast hne) (by
    simp [← hfront, List.getLast?_append, List.getLast?_eq_some_getLast hne])
  rw [hatom] at hend
  cases hend

theorem IsStem.of_append (hbefore : before.toList = front ++ stem.toList)
    (hlast : ∀ c ∈ front.getLast?, Token.isAtomChar c = false)
    (hstem : ∀ c ∈ stem.toList, Token.isAtomChar c = true) : IsStem before stem where
  suffix := hbefore ▸ List.suffix_append front stem.toList
  isAtomChar := hstem
  length_le other hsuffix hother := by
    rw [hbefore] at hsuffix
    exact length_le_of_suffix hsuffix hother hlast

theorem exists_isStem (before : String) : ∃ stem, IsStem before stem := by
  obtain ⟨front, word, hbefore, hlast, hword⟩ := exists_front_word before.toList
  exact ⟨String.ofList word, .of_append (by rwa [String.toList_ofList]) hlast
    (by rwa [String.toList_ofList])⟩

/-- In front of the stem stands a blank or a paren, or nothing. -/
theorem IsStem.exists_front (h : IsStem before stem) :
    ∃ front, before.toList = front ++ stem.toList ∧
      ∀ c ∈ front.getLast?, Token.isAtomChar c = false := by
  obtain ⟨front, hfront⟩ := h.suffix
  refine ⟨front, hfront.symm, fun c hc => ?_⟩
  cases hatom : Token.isAtomChar c with
  | false => rfl
  | true =>
    obtain ⟨others, rfl⟩ := List.getLast?_eq_some_iff.mp hc
    have hle := h.length_le (c :: stem.toList) ⟨others, by simp [← hfront]⟩
      (List.forall_mem_cons.mpr ⟨hatom, h.isAtomChar⟩)
    exact absurd hle (Nat.not_succ_le_self _)

/-! ## The tokens at the cursor -/

/-- No atom reaches up to the end of characters that end in a blank or a paren. -/
theorem stop_ne_of_getLast? (h : Lexes 0 chars tokens) {text : String} {span : Span}
    (hlast : ∀ c ∈ chars.getLast?, isAtomChar c = false) (hmem : ⟨.atom text, span⟩ ∈ tokens) :
    span.stop ≠ byteSize chars := by
  intro hstop
  obtain ⟨before, after, rfl, hstart, hspan⟩ := h.covers hmem
  have hword := h.isWord hmem
  have hafter : after = [] := by
    by_contra hne
    have hpos := byteSize_pos hne
    simp only [TokenKind.text, Text.byteSize_append] at hstop hspan hstart
    omega
  have hend := hlast (text.toList.getLast hword.ne_nil) (by
    simp [hafter, TokenKind.text, List.getLast?_append, List.getLast?_eq_some_getLast hword.ne_nil])
  rw [hword.isAtomChar _ (List.getLast_mem hword.ne_nil)] at hend
  cases hend

/-- What is put in behind a stem makes one atom with it if both are one word. -/
theorem IsStem.getLast?_tokenize_append (h : IsStem before stem)
    (hword : IsWord (stem ++ missing)) :
    ∃ start, (Token.tokenize (before ++ missing)).getLast? = some ⟨.atom (stem ++ missing),
      ⟨start, byteSize before.toList + byteSize missing.toList⟩⟩ := by
  obtain ⟨front, hbefore, hlast⟩ := h.exists_front
  have hfront := lexes_tokenize (String.ofList front)
  rw [String.toList_ofList] at hfront
  have hlexes := hfront.append_behind hlast
    (.of_word (0 + byteSize front) hword.ne_nil hword.isAtomChar)
  have hchars : (before ++ missing).toList = front ++ (stem ++ missing).toList := by
    simp [hbefore]
  have hstop : 0 + byteSize front + byteSize (stem ++ missing).toList =
      byteSize before.toList + byteSize missing.toList := by
    simp [hbefore, Text.byteSize_append, Nat.add_assoc]
  refine ⟨0 + byteSize front, ?_⟩
  rw [Token.tokenize, hchars, hlexes.scan_eq, String.ofList_toList, hstop]
  simp

theorem IsStem.isWord (h : IsStem before stem) (hne : stem ≠ "") : IsWord stem where
  ne_nil := fun hnil => hne (String.toList_eq_nil_iff.mp hnil)
  isAtomChar := h.isAtomChar

theorem ofList_takeBytes (before after : String) :
    String.ofList (takeBytes (byteSize before.toList) (before ++ after).toList) = before := by
  rw [String.toList_append, Text.takeBytes_byteSize_append, String.ofList_toList]

/-- The stem is the atom that ends at the cursor. -/
theorem IsStem.stem?_eq (h : IsStem before stem) (hne : stem ≠ "") (after : String) :
    stem? (before ++ after) (byteSize before.toList) = some stem := by
  have hword : IsWord (stem ++ "") := by simpa using h.isWord hne
  obtain ⟨start, htoken⟩ := h.getLast?_tokenize_append hword
  simp only [String.append_empty, String.toList_empty, byteSize, Nat.add_zero] at htoken
  simp only [stem?, ofList_takeBytes, htoken, if_true]

/-- Without a stem no atom ends at the cursor. -/
theorem IsStem.stem?_eq_none (h : IsStem before "") (after : String) :
    stem? (before ++ after) (byteSize before.toList) = none := by
  obtain ⟨front, hbefore, hlast⟩ := h.exists_front
  rw [String.toList_empty, List.append_nil] at hbefore
  rw [← hbefore] at hlast
  simp only [stem?, ofList_takeBytes]
  split
  · rename_i text span htoken
    exact if_neg (stop_ne_of_getLast? (lexes_tokenize before) hlast
      (List.mem_of_getLast? htoken))
  · rfl

/-! ## The candidates -/

/-- What is missing from the stem to the name is put in behind the stem to give the name. -/
theorem missing?_eq_some_iff :
    missing? stem name = some missing ↔ missing ≠ "" ∧ stem ++ missing = name := by
  unfold missing?
  rw [← String.toList_inj, String.toList_append, ← List.isPrefixOf?_eq_some_iff_append_eq]
  cases stem.toList.isPrefixOf? name.toList with
  | none => simp
  | some rest =>
    cases rest with
    | nil => simp
    | cons c rest =>
      rw [Option.some.injEq, Option.some.injEq]
      constructor
      · rintro rfl
        exact ⟨by simp, by rw [String.toList_ofList]⟩
      · rintro ⟨-, hrest⟩
        rw [hrest, String.ofList_toList]

/-- What is missing comes in the order of the names. -/
theorem lt_of_append_lt {a b : String} (h : stem ++ a < stem ++ b) : a < b := by
  show a.toList < b.toList
  change (stem ++ a).toList < (stem ++ b).toList at h
  rw [String.toList_append, String.toList_append] at h
  generalize stem.toList = front at h
  induction front with
  | nil => exact h
  | cons c front ih =>
    rw [List.cons_append, List.cons_append, List.cons_lt_cons_self] at h
    exact ih h

theorem pairwise_candidates (names : List String) (line : String) (cursor : Nat) :
    (candidates names line cursor).Pairwise (· < ·) := by
  unfold candidates
  split
  · exact .nil
  · refine List.Pairwise.filterMap _ ?_ (Text.pairwise_nameSet _)
    intro name other hlt missing hmissing missing' hmissing'
    obtain ⟨-, rfl⟩ := missing?_eq_some_iff.mp hmissing
    obtain ⟨-, rfl⟩ := missing?_eq_some_iff.mp hmissing'
    exact lt_of_append_lt hlt

theorem mem_words_iff : name ∈ Keyword.words ↔ ∃ keyword : Keyword, keyword.word = name := by
  rw [Keyword.words, Text.mem_nameSet, List.mem_map]
  constructor
  · rintro ⟨keyword, -, hword⟩
    exact ⟨keyword, hword⟩
  · rintro ⟨keyword, hword⟩
    exact ⟨keyword, Keyword.mem_all keyword, hword⟩

/-- A candidate makes the stem a name or a keyword. -/
theorem mem_candidates_iff (h : IsStem before stem) (hne : stem ≠ "") (names : List String)
    (after : String) :
    missing ∈ candidates names (before ++ after) (byteSize before.toList) ↔
      missing ≠ "" ∧ (stem ++ missing ∈ names ∨
        ∃ keyword : Keyword, keyword.word = stem ++ missing) := by
  simp only [candidates, h.stem?_eq hne, List.mem_filterMap, Text.mem_nameSet,
    List.mem_append, mem_words_iff, missing?_eq_some_iff]
  constructor
  · rintro ⟨name, hname, hmissing, rfl⟩
    exact ⟨hmissing, hname⟩
  · rintro ⟨hmissing, hname⟩
    exact ⟨_, hname, hmissing, rfl⟩

end Completion

/-! ## What is completed in a session -/

/-- The names of a session are those that are found from the global frame. -/
theorem Session.Reached.mem_names_iff {texts : List String} {session : Session} {name : String}
    (h : Session.Reached texts session) :
    name ∈ session.names ↔ ∃ owner, session.store.find? session.root name = some owner :=
  h.hosts.wellFormed.mem_visible_iff_find?

/-- Every name that is found in a session is read as a symbol. -/
theorem Session.Reached.isName_of_find? {texts : List String} {session : Session} {name : String}
    {frame owner : Nat} (h : Session.Reached texts session)
    (hfind : session.store.find? frame name = some owner) : IsName name :=
  h.named.names owner name (Store.isSome_get?_of_find? hfind)

theorem Reader.read_atom_of_isName {name : String} (h : IsName name) (span : Span) :
    read [⟨.atom name, span⟩] = .ok (.symbol name span, []) := by
  rw [read, readWithin, atom, h.parse?_eq_none]

namespace Completion

/-- The cursor stands between two pieces of a line, in a session that can be reached.  The stem is
the longest piece in front of the cursor that has no blank and no paren in it.  Without a stem there
are no candidates.  Otherwise they are all texts that are not empty and make the stem a name that
is found from the global frame or a keyword, each once and in order.  They are put in at the cursor.
There a candidate ends the last token of what is in front of it, which is that name, and this is
read as a symbol. -/
theorem completes_to_names {texts : List String} {session : Session}
    (h : Session.Reached texts session) (before after : String) :
    (∃ stem, IsStem before stem) ∧ ∀ stem, IsStem before stem →
      ∃ found, complete session.names (before ++ after) (byteSize before.toList) =
          (byteSize before.toList, found) ∧
        (stem = "" → found = []) ∧
        (stem ≠ "" → ∀ missing, missing ∈ found ↔ missing ≠ "" ∧
          ((∃ owner, session.store.find? session.root (stem ++ missing) = some owner) ∨
            ∃ keyword : Keyword, keyword.word = stem ++ missing)) ∧
        found.Pairwise (· < ·) ∧
        ∀ missing ∈ found, ∃ span,
          (Token.tokenize (before ++ missing)).getLast? = some ⟨.atom (stem ++ missing), span⟩ ∧
          span.stop = byteSize before.toList + byteSize missing.toList ∧
          Reader.read [⟨.atom (stem ++ missing), span⟩] =
            .ok (.symbol (stem ++ missing) span, []) := by
  refine ⟨exists_isStem before, fun stem hstem => ?_⟩
  have hmembers : stem ≠ "" → ∀ missing,
      missing ∈ candidates session.names (before ++ after) (byteSize before.toList) ↔
        missing ≠ "" ∧ ((∃ owner, session.store.find? session.root (stem ++ missing) = some owner) ∨
          ∃ keyword : Keyword, keyword.word = stem ++ missing) := by
    intro hne missing
    rw [mem_candidates_iff hstem hne, h.mem_names_iff]
  refine ⟨_, rfl, ?_, hmembers, pairwise_candidates .., ?_⟩
  · rintro rfl
    simp only [candidates, hstem.stem?_eq_none]
  · intro missing hmem
    have hne : stem ≠ "" := by
      rintro rfl
      simp only [candidates, hstem.stem?_eq_none, List.not_mem_nil] at hmem
    obtain ⟨-, hname⟩ := (hmembers hne missing).mp hmem
    have hisName : IsName (stem ++ missing) := by
      rcases hname with ⟨owner, howner⟩ | ⟨keyword, hkeyword⟩
      · exact h.isName_of_find? howner
      · exact hkeyword ▸ isName_word keyword
    obtain ⟨start, htoken⟩ := hstem.getLast?_tokenize_append hisName.word
    exact ⟨_, htoken, rfl, Reader.read_atom_of_isName hisName _⟩

/-- A new session in which the word of a keyword is bound. -/
def boundIf : Session where
  store := Session.new.store.set 0 "if" (.number 1)
  root := 0

/-- With the cursor in front of the paren of `é(i)`, a bound `if` and the keyword are one
candidate. -/
theorem completes_bound_keyword :
    Session.Reached ["(define if 1)"] boundIf ∧ IsStem "é(i" "i" ∧
      complete boundIf.names ("é(i" ++ ")") 4 = (4, ["f"]) ∧
      ∃ span, (Token.tokenize ("é(i" ++ "f")).getLast? = some ⟨.atom ("i" ++ "f"), span⟩ ∧
        span.stop = 4 + 1 ∧
        Reader.read [⟨.atom ("i" ++ "f"), span⟩] = .ok (.symbol ("i" ++ "f") span, []) := by
  have heval : Session.new.eval 2 "(define if 1)" = some (.ok (some (.number 1)), boundIf) :=
    Session.eval_of_read
      (.list [.symbol "define" ⟨1, 7⟩, .symbol "if" ⟨8, 10⟩, .number 1 ⟨11, 12⟩] ⟨0, 13⟩)
      (.ok (.number 1)) (by rfl) (by with_unfolding_all rfl)
  have hreached : Session.Reached ["(define if 1)"] boundIf := Session.Reached.new.eval heval
  have hsplit : "é(i".toList = ['é', '('] ++ "i".toList := by decide
  have hstem : IsStem "é(i" "i" := by
    refine .of_append hsplit (fun c hc => ?_) (List.all_eq_true.mp (by decide))
    cases hc
    decide
  have hcomplete : complete boundIf.names ("é(i" ++ ")") 4 = (4, ["f"]) := by
    decide +kernel
  obtain ⟨found, hfound, -, -, -, htokens⟩ :=
    (completes_to_names hreached "é(i" ")").2 "i" hstem
  have hsame : found = ["f"] := (Prod.mk.inj (hfound.symm.trans hcomplete)).2
  exact ⟨hreached, hstem, hcomplete, htokens "f" (hsame ▸ List.mem_singleton_self "f")⟩

end Completion

end TinyLisp
