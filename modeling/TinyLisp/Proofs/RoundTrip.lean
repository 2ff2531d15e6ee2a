import TinyLisp.Proofs.Lexing

/-!
# Writing nodes and reading them back

A node is written on one line, and what is written is read as that node again, with other
spans.  It takes two facts about the atoms of a node: the name of a symbol is a word that is
no numeral, and the text of a number is a word that is read as that number.

* `IsWord`: texts that are one atom, and `isWord_render`: the text of every number is one.
* `Node.Writable`: nodes that can be written, and `writable_of_parse`: the nodes of a text are
  writable up to their numbers.
* `Writes`: characters that are read as some nodes, with one lemma for each way to put such
  characters together.
* `parse_joined`: the round trip.
-/

namespace TinyLisp

open Text (isBlank byteSize)
open Token (isAtomChar)

/-! ## The text of a number -/

namespace Number

/-- A character in the text of a number. -/
def IsNumeralChar (c : Char) : Prop :=
  c.isDigit = true ∨ c = '.' ∨ c = '-'

theorem isAtomChar_of_isNumeralChar {c : Char} (h : IsNumeralChar c) : isAtomChar c = true := by
  rcases h with hdigit | rfl | rfl
  · have hrange := Char.isDigit_iff_toNat.mp hdigit
    have hblank : isBlank c = false := by
      simp only [isBlank, Bool.or_eq_false_iff, Bool.and_eq_false_iff, decide_eq_false_iff_not]
      simp only [Char.reduceToNat] at hrange
      omega
    have hopening : c ≠ '(' := by
      rintro rfl
      exact absurd hrange (by decide)
    have hclosing : c ≠ ')' := by
      rintro rfl
      exact absurd hrange (by decide)
    simp [Token.isAtomChar, hblank, hopening, hclosing]
  · decide
  · decide

theorem isNumeralChar_of_mem_zeros {count : Nat} {c : Char} (h : c ∈ zeros count) :
    IsNumeralChar c := by
  rw [List.eq_of_mem_replicate h]
  exact .inl (by decide)

theorem isNumeralChar_of_mem_toDigits {n : Nat} {c : Char} (h : c ∈ Nat.toDigits 10 n) :
    IsNumeralChar c :=
  .inl (Nat.isDigit_of_mem_toDigits (by decide) (by decide) h)

/-- A decimal is written with digits and at most one point. -/
theorem isNumeralChar_of_mem_positional {d : Decimal} {c : Char} (h : c ∈ d.positional false) :
    IsNumeralChar c := by
  simp only [Decimal.positional, Bool.false_eq_true, if_false, List.append_nil] at h
  split at h
  · rcases List.mem_append.mp h with hdigit | hzero
    · exact isNumeralChar_of_mem_toDigits hdigit
    · exact isNumeralChar_of_mem_zeros hzero
  · split at h
    · rcases List.mem_append.mp h with hwhole | hrest
      · exact isNumeralChar_of_mem_toDigits (List.mem_of_mem_take hwhole)
      · rcases List.mem_cons.mp hrest with rfl | hplaces
        · exact .inr (.inl rfl)
        · exact isNumeralChar_of_mem_toDigits (List.mem_of_mem_drop hplaces)
    · rcases List.mem_cons.mp h with rfl | hrest
      · exact .inl (by decide)
      · rcases List.mem_cons.mp hrest with rfl | hplaces
        · exact .inr (.inl rfl)
        · rcases List.mem_append.mp hplaces with hzero | hdigit
          · exact isNumeralChar_of_mem_zeros hzero
          · exact isNumeralChar_of_mem_toDigits hdigit

theorem positional_ne_nil (d : Decimal) : d.positional false ≠ [] := by
  simp only [Decimal.positional]
  split
  · simp [Nat.toDigits_ne_nil]
  · split <;> simp

/-- The text of a number is one atom. -/
theorem isWord_render (x : Float) : IsWord (render .plain x) := by
  unfold render
  split
  · exact ⟨by decide, List.all_eq_true.mp (by decide)⟩
  · split
    · exact ⟨by decide, List.all_eq_true.mp (by decide)⟩
    · exact ⟨by decide, List.all_eq_true.mp (by decide)⟩
  · rename_i negative mantissa exponent _
    have hdigits : (shortest mantissa exponent).render .plain =
        (shortest mantissa exponent).positional false := by
      simp [Decimal.render, Layout.plain]
    constructor
    · simp only [hdigits, String.toList_ofList]
      split
      · simp
      · exact positional_ne_nil _
    · intro c hmem
      simp only [hdigits, String.toList_ofList] at hmem
      apply isAtomChar_of_isNumeralChar
      split at hmem
      · rcases List.mem_cons.mp hmem with rfl | hmem
        · exact .inr (.inr rfl)
        · exact isNumeralChar_of_mem_positional hmem
      · exact isNumeralChar_of_mem_positional hmem

end Number

/-! ## Nodes that can be written -/

/-- The text of the number is read as that number. -/
def Number.ReadsBack (x : Float) : Prop :=
  Number.parse? (Number.render .plain x) = some x

instance (x : Float) : Decidable (Number.ReadsBack x) :=
  inferInstanceAs (Decidable (Number.parse? (Number.render .plain x) = some x))

/-- The name is read as a symbol. -/
structure IsName (name : String) : Prop where
  word : IsWord name
  parse?_eq_none : Number.parse? name = none

namespace Node

/-- The symbols in the node are read as symbols and the numbers as those numbers. -/
structure Writable (node : Node) : Prop where
  name : ∀ name span, (symbol name span).Part node → IsName name
  number : ∀ value span, (number value span).Part node → Number.ReadsBack value

theorem Writable.child {children : List Node} {span : Span}
    (h : (list children span).Writable) {child : Node} (hmem : child ∈ children) :
    child.Writable where
  name := fun name span hpart => h.name name span (.child hmem hpart)
  number := fun value span hpart => h.number value span (.child hmem hpart)

/-- The node without regard to spans. -/
def erase (node : Node) : Node :=
  node.respan fun _ => default

theorem erase_list (children : List Node) (span : Span) :
    (list children span).erase = .list (children.map erase) default :=
  respan_list children span

theorem render_erase (node : Node) : node.erase.render = node.render :=
  render_respan

end Node

open Reader (Spells)

/-- A symbol that is made of the tokens of a text is one that can be written. -/
theorem Reader.MadeOf.isName {text name : String} {span : Span}
    (h : Reader.MadeOf (Token.tokenize text) (.symbol name span)) : IsName name := by
  generalize hsymbol : Node.symbol name span = node at h
  cases h with
  | list => cases hsymbol
  | @atom word place hatom =>
    unfold Reader.atom at hsymbol
    split at hsymbol
    · cases hsymbol
    · rename_i hnone
      cases hsymbol
      exact ⟨(lexes_tokenize text).isWord hatom, hnone⟩

/-- A symbol that is read from a text is one that can be written. -/
theorem isName_of_spells {text name : String} {nodes : List Node} {span : Span}
    (h : Spells nodes (Token.tokenize text)) {node : Node} (hmem : node ∈ nodes)
    (hpart : (Node.symbol name span).Part node) : IsName name :=
  (h.madeOf hmem hpart).isName

/-! ## Reading what is written -/

/-- Wherever the characters stand, they are read as these nodes, up to spans. -/
def Writes (nodes : List Node) (chars : List Char) : Prop :=
  ∀ pos, ∃ tokens again, Lexes pos chars tokens ∧ Spells again tokens ∧
    again.map Node.erase = nodes.map Node.erase

namespace Writes

variable {nodes later : List Node} {chars more : List Char}

theorem nil : Writes [] [] :=
  fun _ => ⟨[], [], .nil, .nil, rfl⟩

theorem append (h : Writes nodes chars) (hend : EndsWord more) (hmore : Writes later more) :
    Writes (nodes ++ later) (chars ++ more) := by
  intro pos
  obtain ⟨tokens, again, hlexes, hspells, herase⟩ := h pos
  obtain ⟨others, rest, hlexes', hspells', herase'⟩ := hmore (pos + byteSize chars)
  refine ⟨tokens ++ others, again ++ rest, hlexes.append hend hlexes', hspells.append hspells', ?_⟩
  rw [List.map_append, List.map_append, herase, herase']

theorem blanks_append {blanks : List Char} (h : Writes nodes chars)
    (hblanks : ∀ c ∈ blanks, isBlank c = true) : Writes nodes (blanks ++ chars) := by
  intro pos
  obtain ⟨tokens, again, hlexes, hspells, herase⟩ := h (pos + byteSize blanks)
  exact ⟨tokens, again, .blanks_append hblanks hlexes, hspells, herase⟩

/-- A word is read as one atom. -/
theorem atom {text : String} (h : IsWord text) (span : Span) :
    Writes [Reader.atom text span] text.toList := by
  intro pos
  have hlexes := Lexes.of_word pos h.ne_nil h.isAtomChar
  rw [String.ofList_toList] at hlexes
  refine ⟨_, _, hlexes, .atom .nil, ?_⟩
  simp [Node.erase, Reader.atom_respan]

/-- Between parens nodes are read as a list. -/
theorem list (h : Writes nodes chars) (span : Span) :
    Writes [.list nodes span] ('(' :: (chars ++ [')'])) := by
  intro pos
  obtain ⟨tokens, again, hlexes, hspells, herase⟩ := h (pos + '('.utf8Size)
  have hclosing : Token.paren? ')' = some .closing := rfl
  have hinner := hlexes.append (endsWord_cons (Token.isAtomChar_of_paren? hclosing))
    (.paren hclosing .nil)
  refine ⟨_, _, .paren rfl hinner, .list hspells .nil, ?_⟩
  simp [Node.erase_list, herase]

end Writes

/-- The text is the pieces in order, with blanks, and at least one, between any two. -/
inductive Joined : List String → String → Prop where
  | nil : Joined [] ""
  | single {piece} : Joined [piece] piece
  | cons {piece next rest gap text} (hne : gap ≠ "") (hgap : Blank gap)
      (hrest : Joined (next :: rest) text) : Joined (piece :: next :: rest) (piece ++ gap ++ text)

theorem joined_intercalate {gap : String} (hne : gap ≠ "") (hgap : Blank gap)
    (pieces : List String) : Joined pieces (gap.intercalate pieces) := by
  induction pieces with
  | nil =>
    rw [String.intercalate_nil]
    exact .nil
  | cons piece rest ih =>
    cases rest with
    | nil =>
      rw [String.intercalate_singleton]
      exact .single
    | cons next rest =>
      rw [String.intercalate_cons_cons]
      exact .cons hne hgap ih

theorem endsWord_blanks_append {gap : String} (hne : gap ≠ "") (hgap : Blank gap)
    (chars : List Char) : EndsWord (gap.toList ++ chars) := by
  cases hchars : gap.toList with
  | nil => exact absurd (String.toList_eq_nil_iff.mp hchars) hne
  | cons c rest =>
    exact endsWord_cons (Token.isAtomChar_of_isBlank (hgap c (hchars ▸ List.mem_cons_self)))

/-- Nodes that are read one by one are read together if there are blanks between them. -/
theorem Writes.joined {nodes : List Node} {text : String}
    (hnodes : ∀ node ∈ nodes, Writes [node] node.render.toList)
    (h : Joined (nodes.map Node.render) text) : Writes nodes text.toList := by
  induction nodes generalizing text with
  | nil =>
    cases h
    exact .nil
  | cons node rest ih =>
    have hnode := hnodes node List.mem_cons_self
    cases rest with
    | nil =>
      cases h
      exact hnode
    | cons next rest =>
      rw [List.map_cons, List.map_cons] at h
      cases h with
      | @cons _ _ _ gap text hne hgap hrest =>
        have hlater := ih (fun other hmem => hnodes other (List.mem_cons_of_mem _ hmem)) hrest
        have hend := endsWord_blanks_append hne hgap text.toList
        rw [String.toList_append, String.toList_append, List.append_assoc]
        exact hnode.append hend (hlater.blanks_append hgap)

/-- What is written for a node is read as that node. -/
theorem Node.writes {node : Node} (h : node.Writable) : Writes [node] node.render.toList := by
  induction node with
  | number value span =>
    have hreads : Reader.atom (Number.render .plain value) span = .number value span := by
      have hparse : Number.parse? (Number.render .plain value) = some value := h.number _ _ .self
      simp [Reader.atom, hparse]
    rw [render, ← hreads]
    exact .atom (Number.isWord_render value) span
  | symbol name span =>
    have hname := h.name name span .self
    have hreads : Reader.atom name span = .symbol name span := by
      simp [Reader.atom, hname.parse?_eq_none]
    rw [render, ← hreads]
    exact .atom hname.word span
  | list children span ih =>
    have hgap : Blank " " := by decide
    have hjoin := joined_intercalate (by decide) hgap (children.map render)
    have hchildren := Writes.joined (fun child hmem => ih child hmem (h.child hmem)) hjoin
    have htext : (list children span).render.toList =
        '(' :: ((String.intercalate " " (children.map render)).toList ++ [')']) := by
      simp [render, renderAll_eq_intercalate]
    rw [htext]
    exact hchildren.list span

/-! ## The round trip -/

/-- If nodes are read from a text and written again, with any blanks between them, then what is
written is read as these nodes, up to spans, and is written in the same way.  It is enough that
the numbers among them are read back from their texts. -/
theorem Reader.parse_joined {text joined : String} {nodes : List Node}
    (hparse : parse text = .ok nodes)
    (hnumbers : ∀ node ∈ nodes, ∀ value span, (Node.number value span).Part node →
      Number.ReadsBack value)
    (hjoin : Joined (nodes.map Node.render) joined) :
    ∃ again, parse joined = .ok again ∧ again.map Node.erase = nodes.map Node.erase ∧
      again.map Node.render = nodes.map Node.render := by
  have hspells := parse_eq_ok_iff.mp hparse
  have hwrites : Writes nodes joined.toList := by
    refine Writes.joined (fun node hmem => Node.writes ⟨?_, hnumbers node hmem⟩) hjoin
    exact fun name span hpart => isName_of_spells hspells hmem hpart
  obtain ⟨tokens, again, hlexes, hagain, herase⟩ := hwrites 0
  have htokens : Token.tokenize joined = tokens := hlexes.scan_eq
  refine ⟨again, parse_eq_ok_iff.mpr (htokens ▸ hagain), herase, ?_⟩
  have hrender := congrArg (List.map Node.render) herase
  simpa [Function.comp_def, Node.render_erase] using hrender

/-- The nodes of `(x -0())nan`. -/
def Reader.twoNodes : List Node :=
  [.list [.symbol "x" ⟨1, 2⟩, .number (-0) ⟨3, 5⟩, .list [] ⟨5, 7⟩] ⟨0, 8⟩,
    .number (0 / 0) ⟨8, 11⟩]

/-- A list without blanks before its end, a negative zero and what is no number come back. -/
theorem Reader.parse_twoNodes :
    parse "(x -0())nan" = .ok twoNodes ∧
      ∃ again, parse "(x -0 ())\t\nNaN" = .ok again ∧
        again.map Node.erase = twoNodes.map Node.erase ∧
        again.map Node.render = twoNodes.map Node.render := by
  have hparse : parse "(x -0())nan" = .ok twoNodes := by
    have hfirst : read (Token.tokenize "(x -0())nan") =
        .ok (.list [.symbol "x" ⟨1, 2⟩, .number (-0) ⟨3, 5⟩, .list [] ⟨5, 7⟩] ⟨0, 8⟩,
          [⟨.atom "nan", ⟨8, 11⟩⟩]) := by rfl
    have hsecond : read [⟨.atom "nan", ⟨8, 11⟩⟩] = .ok (.number (0 / 0) ⟨8, 11⟩, []) := by rfl
    rw [parse, readAll_of_read hfirst, readAll_of_read hsecond, readAll_nil]
    rfl
  have hnumbers : ∀ node ∈ twoNodes, ∀ value span, (Node.number value span).Part node →
      Number.ReadsBack value := by
    intro node hmem value span hpart
    simp only [twoNodes, List.mem_cons, List.not_mem_nil, or_false] at hmem
    rcases hmem with rfl | rfl
    · cases hpart with
      | child hchild hpart =>
        simp only [List.mem_cons, List.not_mem_nil, or_false] at hchild
        rcases hchild with rfl | rfl | rfl
        · cases hpart
        · cases hpart
          decide +kernel
        · cases hpart with
          | child hchild => cases hchild
    · cases hpart
      decide +kernel
  have hjoin : Joined (twoNodes.map Node.render) "(x -0 ())\t\nNaN" := by
    have hpieces : twoNodes.map Node.render = ["(x -0 ())", "NaN"] := by decide +kernel
    have htext : "(x -0 ())\t\nNaN" = "(x -0 ())" ++ "\t\n" ++ "NaN" := by decide
    rw [hpieces, htext]
    exact .cons (by decide) (by decide) .single
  exact ⟨hparse, parse_joined hparse hnumbers hjoin⟩

end TinyLisp
