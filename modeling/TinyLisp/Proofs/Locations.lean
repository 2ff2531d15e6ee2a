import Mathlib.Data.List.TakeWhile
import TinyLisp.Proofs.Attribution
import TinyLisp.Proofs.RoundTrip
import TinyLisp.Proofs.Tokenization
import TinyLisp.Report

/-!
# The location in a report

A report begins with a heading, and a location of the fault in the next line.  Spans are counted
in bytes, and places in a text in characters, so the two agree only as long as every character in
front of the fault takes one byte.

* `Locates` and `Locates.place_eq`: a report gives no more than one location.
* `placeAfter` and `placeOf_lines`: the place of a character, and the walk over the lines that
  finds it.
* `placeOf_inj`: no two offsets have the same place.
* `locates_render_iff`: the location that a diagram shows.
* `Session.exists_standsAt`: the fault of a text in a new session stands in that text.
-/

namespace TinyLisp

open Text (byteSize)

namespace Report

/-! ## Locations -/

/-- A place as it is printed, counted from one. -/
def located (name : String) (place : Place) : String :=
  name ++ ":" ++ toString (place.row + 1) ++ ":" ++ toString (place.column + 1)

/-- The second line of a report is a location in the source of that name. -/
def Locates (report name : String) (place : Place) : Prop :=
  ∃ heading margin rest : String, '\n' ∉ heading.toList ∧ (∀ c ∈ margin.toList, c = ' ') ∧
    report = heading ++ "\n" ++ margin ++ "╭─[ " ++ located name place ++ " ]\n" ++ rest

/-- What stands in front of the first delimiter is the same in equal lists, and so is what stands
behind it. -/
theorem append_cons_inj_of_notMem (delimiter : Char) {a b x y : List Char}
    (ha : delimiter ∉ a) (hb : delimiter ∉ b) (h : a ++ delimiter :: x = b ++ delimiter :: y) :
    a = b ∧ x = y := by
  rcases List.append_eq_append_iff.mp h with ⟨gap, rfl, hgap⟩ | ⟨gap, rfl, hgap⟩
  · cases gap with
    | nil => simpa using hgap
    | cons d gap =>
      cases hgap
      exact absurd (by simp) hb
  · cases gap with
    | nil => simpa using hgap.symm
    | cons d gap =>
      cases hgap
      exact absurd (by simp) ha

theorem notMem_toString {c : Char} (hc : c.isDigit = false) (n : Nat) :
    c ∉ (toString n).toList := by
  intro hmem
  have hmem : c ∈ Nat.toDigits 10 n := by simpa [toString, Nat.toList_repr] using hmem
  have hdigit := Nat.isDigit_of_mem_toDigits (by decide) (by decide) hmem
  rw [hc] at hdigit
  cases hdigit

theorem toString_inj {m n : Nat} (h : (toString m).toList = (toString n).toList) : m = n := by
  have hdigits := congrArg (fun digits => Nat.ofDigitChars 10 digits 0) h
  simpa [toString, Nat.toList_repr] using hdigits

/-- A report gives no more than one location. -/
theorem Locates.place_eq {report name : String} {place other : Place}
    (h : Locates report name place) (hother : Locates report name other) : place = other := by
  obtain ⟨heading, margin, rest, hheading, hmargin, rfl⟩ := h
  obtain ⟨heading', margin', rest', hheading', hmargin', heq⟩ := hother
  have hchars := congrArg String.toList heq
  simp only [located, String.toList_append, List.append_assoc] at hchars
  obtain ⟨-, hsecond⟩ := append_cons_inj_of_notMem '\n' hheading hheading' hchars
  obtain ⟨-, hplace⟩ := append_cons_inj_of_notMem '╭'
    (fun hmem => absurd (hmargin _ hmem) (by decide))
    (fun hmem => absurd (hmargin' _ hmem) (by decide)) hsecond
  -- Behind the frame and the name, each number ends at the first character that is no digit.
  have hnumbers : ':' :: ((toString (place.row + 1)).toList ++ ':' :: _) =
      ':' :: ((toString (other.row + 1)).toList ++ ':' :: _) :=
    List.append_cancel_left (List.append_cancel_left hplace : name.toList ++ _ = name.toList ++ _)
  obtain ⟨hrow, hcolumn⟩ := append_cons_inj_of_notMem ':' (notMem_toString (by decide) _)
    (notMem_toString (by decide) _) (List.cons.inj hnumbers).2
  obtain ⟨hcolumn, -⟩ := append_cons_inj_of_notMem ' ' (notMem_toString (by decide) _)
    (notMem_toString (by decide) _) hcolumn
  cases place
  cases other
  cases toString_inj hrow
  cases toString_inj hcolumn
  rfl

/-! ## Places -/

/-- The place behind some characters, the first of which begin a text: one row for each line end,
and one column for each character since the last one. -/
def placeAfter (before : List Char) : Place :=
  ⟨before.count '\n', (before.reverse.takeWhile (· ≠ '\n')).length⟩

/-- No line ends otherwise than with this character. -/
def EndsLines (chars : List Char) : Prop :=
  ∀ c ∈ chars, isTerminator c = true → c = '\n'

instance (chars : List Char) : Decidable (EndsLines chars) :=
  List.decidableBAll (fun c => isTerminator c = true → c = '\n') chars

variable {chars before rest current : List Char} {c : Char} {offset : Nat} {line : Line}
  {text : String}

theorem splitLines_newline (offset : Nat) (current rest : List Char) :
    splitLines offset current ('\n' :: rest) =
      ⟨offset, ('\n' :: current).reverse⟩ :: splitLines (offset + current.length + 1) [] rest := by
  rw [splitLines]
  · rfl
  · simp

theorem splitLines_cons_of_ne (hends : EndsLines (c :: rest)) (hc : c ≠ '\n') (offset : Nat)
    (current : List Char) :
    splitLines offset current (c :: rest) = splitLines offset (c :: current) rest := by
  have hterminator : ¬ isTerminator c = true := fun h => hc (hends c List.mem_cons_self h)
  rw [splitLines, if_neg hterminator]
  rintro later rfl -
  exact hterminator rfl

theorem EndsLines.tail (h : EndsLines (c :: rest)) : EndsLines rest :=
  fun d hd => h d (List.mem_cons_of_mem _ hd)

/-- The first line begins where it does, and the other ones behind what is read of it. -/
theorem splitLines_eq_cons (hends : EndsLines chars) (offset : Nat) (current : List Char)
    (hne : current ≠ [] ∨ chars ≠ []) :
    ∃ first later, splitLines offset current chars = ⟨offset, first⟩ :: later ∧
      ∀ line ∈ later, offset + current.length < line.offset := by
  induction chars generalizing current offset with
  | nil =>
    have hcurrent : current.isEmpty = false := by simpa using hne
    exact ⟨current.reverse, [], by simp [splitLines, hcurrent], by simp⟩
  | cons c rest ih =>
    by_cases hc : c = '\n'
    · subst hc
      refine ⟨_, _, splitLines_newline offset current rest, ?_⟩
      cases rest with
      | nil => simp [splitLines]
      | cons d rest =>
        obtain ⟨first, later, hlines, hlater⟩ :=
          ih hends.tail (offset + current.length + 1) [] (.inr (List.cons_ne_nil d rest))
        intro line hline
        rw [hlines] at hline
        rcases List.mem_cons.mp hline with rfl | hline
        · exact Nat.lt_succ_self _
        · have := hlater line hline
          omega
    · obtain ⟨first, later, hlines, hlater⟩ :=
        ih hends.tail offset (c :: current) (.inl (List.cons_ne_nil c current))
      refine ⟨first, later, (splitLines_cons_of_ne hends hc offset current).trans hlines, ?_⟩
      intro line hline
      have := hlater line hline
      rw [List.length_cons] at this
      omega

/-- The last line ends where the characters do. -/
theorem stop_of_splitLines (hends : EndsLines chars) (hne : current ≠ [] ∨ chars ≠ [])
    (offset : Nat) :
    (splitLines offset current chars).getLast?.map Line.stop =
      some (offset + current.length + chars.length) := by
  induction chars generalizing current offset with
  | nil =>
    have hcurrent : current.isEmpty = false := by simpa using hne
    simp [splitLines, hcurrent, Line.stop, Line.length]
  | cons c rest ih =>
    by_cases hc : c = '\n'
    · subst hc
      rw [splitLines_newline]
      cases rest with
      | nil => simp [splitLines, Line.stop, Line.length, Nat.add_assoc]
      | cons d rest =>
        have hrest : EndsLines (d :: rest) := hends.tail
        have hne : ([] : List Char) ≠ [] ∨ d :: rest ≠ [] := .inr (List.cons_ne_nil d rest)
        have hlast := ih hrest hne (offset + current.length + 1)
        obtain ⟨first, later, hlines, -⟩ :=
          splitLines_eq_cons hrest (offset + current.length + 1) [] hne
        rw [hlines] at hlast ⊢
        rw [List.getLast?_cons_cons, hlast]
        simp only [List.length_cons, List.length_nil]
        exact congrArg some (by omega)
    · rw [splitLines_cons_of_ne hends hc, ih hends.tail (.inl (List.cons_ne_nil c current))]
      simp only [List.length_cons]
      exact congrArg some (by omega)

/-- Behind a line at or before the offset, places are counted from the next row on. -/
theorem placeOf_cons {next : Line} {later : List Line} {k : Nat} (hline : line.offset ≤ k)
    (hnext : next.offset ≤ k) :
    placeOf (line :: next :: later) k =
      ⟨(placeOf (next :: later) k).row + 1, (placeOf (next :: later) k).column⟩ := by
  simp [placeOf, rowOf, hline, hnext]

/-- A line end hides what is in front of it. -/
theorem takeWhile_append_newline (front back : List Char) :
    (front ++ '\n' :: back).takeWhile (· ≠ '\n') = front.takeWhile (· ≠ '\n') := by
  induction front with
  | nil => simp
  | cons c rest ih => simp only [List.cons_append, List.takeWhile_cons, ih]

/-- The walk over the lines finds the place of a character. -/
theorem placeOf_splitLines (hends : EndsLines (before ++ c :: rest)) (hcurrent : '\n' ∉ current)
    (offset : Nat) :
    placeOf (splitLines offset current (before ++ c :: rest))
        (offset + current.length + before.length) =
      ⟨before.count '\n', ((before.reverse ++ current).takeWhile (· ≠ '\n')).length⟩ := by
  induction before generalizing current offset with
  | nil =>
    obtain ⟨first, later, hlines, hlater⟩ :=
      splitLines_eq_cons hends offset current (.inr (List.cons_ne_nil c rest))
    have hnone : later.takeWhile (fun line => line.offset ≤ offset + current.length) = [] := by
      cases later with
      | nil => rfl
      | cons line later =>
        have := hlater line List.mem_cons_self
        simp [this]
    have hall : current.takeWhile (· ≠ '\n') = current :=
      List.takeWhile_eq_self_iff.mpr fun d hd => by
        simpa using ne_of_mem_of_not_mem hd hcurrent
    rw [List.nil_append] at hlines
    rw [List.nil_append, hlines, List.reverse_nil, List.nil_append, hall]
    simp [placeOf, rowOf, hnone]
  | cons d before ih =>
    rw [List.cons_append] at hends ⊢
    by_cases hd : d = '\n'
    · subst hd
      have hplace := ih hends.tail (List.not_mem_nil) (offset + current.length + 1)
      obtain ⟨first, later, hlines, -⟩ :=
        splitLines_eq_cons hends.tail (offset + current.length + 1) []
          (.inr (List.append_ne_nil_of_right_ne_nil before (List.cons_ne_nil c rest)))
      have hk : offset + current.length + ('\n' :: before).length =
          offset + current.length + 1 + before.length := by
        rw [List.length_cons]
        omega
      rw [hlines, List.length_nil, Nat.add_zero, List.append_nil] at hplace
      rw [splitLines_newline, hlines, hk, placeOf_cons (by simp only; omega) (by simp only; omega),
        hplace, List.count_cons_self, List.reverse_cons, List.append_assoc, List.singleton_append,
        takeWhile_append_newline]
    · have hnone : '\n' ∉ d :: current := by simp [hcurrent, Ne.symm hd]
      have hplace := ih hends.tail hnone offset
      have hk : offset + (d :: current).length + before.length =
          offset + current.length + (d :: before).length := by
        rw [List.length_cons, List.length_cons]
        omega
      rw [hk] at hplace
      rw [splitLines_cons_of_ne hends hd, hplace, List.count_cons_of_ne hd]
      simp

/-! ## The lines of a text -/

theorem lines_of_ne_nil (h : text.toList ≠ []) (hends : EndsLines text.toList) :
    lines text = splitLines 0 [] text.toList := by
  obtain ⟨first, later, hlines, -⟩ := splitLines_eq_cons hends 0 [] (.inr h)
  rw [lines, hlines]

theorem exists_lines_eq_cons (hends : EndsLines text.toList) :
    ∃ first later, lines text = ⟨0, first⟩ :: later := by
  by_cases h : text.toList = []
  · exact ⟨[], [], by rw [lines, h]; rfl⟩
  · obtain ⟨first, later, hlines, -⟩ := splitLines_eq_cons hends 0 [] (.inr h)
    exact ⟨first, later, (lines_of_ne_nil h hends).trans hlines⟩

/-- A character of a text has the place behind the characters in front of it. -/
theorem placeOf_lines (htext : text.toList = before ++ c :: rest) (hends : EndsLines text.toList) :
    placeOf (lines text) before.length = placeAfter before := by
  have hne : text.toList ≠ [] := by simp [htext]
  rw [lines_of_ne_nil hne hends]
  rw [htext] at hends ⊢
  have hplace := placeOf_splitLines hends List.not_mem_nil 0
  rw [List.length_nil, Nat.zero_add, List.append_nil] at hplace
  exact hplace

/-- The row of an offset begins at or before it. -/
theorem exists_getElem?_rowOf (first : List Char) (later : List Line) (k : Nat) :
    ∃ line, (⟨0, first⟩ :: later)[rowOf (⟨0, first⟩ :: later) k]? = some line ∧
      line.offset ≤ k := by
  have hpos : 0 < ((⟨0, first⟩ :: later).takeWhile fun line : Line => line.offset ≤ k).length := by
    simp
  have hlt := Nat.sub_one_lt_of_lt hpos
  have hfront : ((⟨0, first⟩ :: later).takeWhile fun line : Line => line.offset ≤ k) <+:
      ⟨0, first⟩ :: later := List.takeWhile_prefix _
  refine ⟨_, List.getElem?_eq_getElem (Nat.lt_of_lt_of_le hlt hfront.length_le), ?_⟩
  have hmem := List.getElem_mem hlt
  rw [hfront.getElem hlt] at hmem
  simpa using List.mem_takeWhile_imp hmem

/-- No two offsets have the same place. -/
theorem placeOf_inj (hends : EndsLines text.toList) {k other : Nat}
    (h : placeOf (lines text) k = placeOf (lines text) other) : k = other := by
  obtain ⟨first, later, hlines⟩ := exists_lines_eq_cons hends
  obtain ⟨line, hline, hle⟩ := exists_getElem?_rowOf first later k
  obtain ⟨row, hrow, hother⟩ := exists_getElem?_rowOf first later other
  rw [hlines] at h
  simp only [placeOf, hline, hrow, Place.mk.injEq, Option.map_some, Option.getD_some] at h
  rw [h.1, hrow] at hline
  cases hline
  omega

/-! ## Diagrams -/

theorem size_lines (hends : EndsLines text.toList) (name label : String) (span : Span) :
    Diagram.size ⟨name, lines text, span, label⟩ = text.toList.length := by
  by_cases h : text.toList = []
  · rw [Diagram.size, lines, h]
    rfl
  · rw [Diagram.size, lines_of_ne_nil h hends, stop_of_splitLines hends (.inr h)]
    simp

theorem isInside_iff (hends : EndsLines text.toList) {span : Span} (hspan : span.start < span.stop)
    (name label : String) :
    Diagram.isInside ⟨name, lines text, span, label⟩ = true ↔
      span.stop ≤ text.toList.length + 1 := by
  rw [Diagram.isInside, Diagram.last, size_lines hends]
  simp only [hspan, if_true, Bool.and_eq_true, decide_eq_true_eq]
  omega

theorem eq_space_of_mem_margin {diagram : Diagram} (h : c ∈ diagram.margin.toList) : c = ' ' := by
  rw [Diagram.margin, Diagram.times, String.toList_join, List.mem_flatMap] at h
  obtain ⟨piece, hpiece, hmem⟩ := h
  rw [List.eq_of_mem_replicate hpiece] at hmem
  exact List.mem_singleton.mp hmem

/-- Without a diagram, a report is its heading. -/
theorem render_of_outside {name : String} {caption : Caption} {span : Span}
    (h : Diagram.isInside ⟨name, lines text, span, caption.label⟩ = false) :
    render name text caption span = "Error: " ++ caption.heading ++ "\n" := by
  simp [render, Diagram.rows, h, String.join_cons]

/-- With a diagram, the location comes behind the heading. -/
theorem locates_of_inside {name : String} {caption : Caption} {span : Span}
    (hheading : '\n' ∉ ("Error: " ++ caption.heading).toList)
    (h : Diagram.isInside ⟨name, lines text, span, caption.label⟩ = true) :
    Locates (render name text caption span) name (placeOf (lines text) span.start) := by
  let diagram : Diagram := ⟨name, lines text, span, caption.label⟩
  refine ⟨_, diagram.margin,
    String.join (((diagram.margin ++ "│") :: (diagram.body ++
      [Diagram.times (diagram.numberWidth + 2) "─" ++ "╯"])).map (· ++ "\n")),
    hheading, fun c => eq_space_of_mem_margin, ?_⟩
  have hlocation : diagram.location = located name (placeOf (lines text) span.start) := rfl
  rw [render, Diagram.rows, if_pos h, ← hlocation]
  simp [String.join_cons, String.append_assoc, diagram]

/-- A diagram shows the place of the start of its span, unless the span ends too far behind the
text. -/
theorem locates_render_iff (hends : EndsLines text.toList) {caption : Caption}
    (hheading : '\n' ∉ caption.heading.toList) {span : Span} (hspan : span.start < span.stop)
    (name : String) (place : Place) :
    Locates (render name text caption span) name place ↔
      span.stop ≤ text.toList.length + 1 ∧ place = placeOf (lines text) span.start := by
  have hfirst : '\n' ∉ ("Error: " ++ caption.heading).toList := by
    simpa using hheading
  rw [← isInside_iff hends hspan name caption.label]
  cases hinside : Diagram.isInside ⟨name, lines text, span, caption.label⟩ with
  | true =>
    have hlocates := locates_of_inside hfirst hinside
    constructor
    · intro h
      exact ⟨rfl, h.place_eq hlocates⟩
    · rintro ⟨-, rfl⟩
      exact hlocates
  | false =>
    rw [render_of_outside hinside]
    constructor
    · rintro ⟨heading, margin, rest, hheading, -, heq⟩
      generalize "Error: " ++ caption.heading = first at hfirst heq
      have hchars := congrArg String.toList heq
      simp only [String.toList_append, List.append_assoc] at hchars
      obtain ⟨-, hnil⟩ := append_cons_inj_of_notMem '\n' hfirst hheading hchars
      simp at hnil
    · rintro ⟨h, -⟩
      cases h

/-! ## Headings -/

theorem notMem_append {first second : String} (hfirst : c ∉ first.toList)
    (hsecond : c ∉ second.toList) : c ∉ (first ++ second).toList := by
  rw [String.toList_append, List.mem_append, not_or]
  exact ⟨hfirst, hsecond⟩

theorem notMem_intercalate {words : List String} (h : ∀ word ∈ words, '\n' ∉ word.toList) :
    '\n' ∉ (String.intercalate " " words).toList := by
  induction words with
  | nil => simp
  | cons word rest ih =>
    obtain ⟨hword, hrest⟩ := List.forall_mem_cons.mp h
    cases rest with
    | nil => simpa using hword
    | cons next rest =>
      rw [String.intercalate_cons_cons]
      exact notMem_append (notMem_append hword (by decide)) (ih hrest)

theorem notMem_of_isWord {word : String} (h : IsWord word) : '\n' ∉ word.toList :=
  fun hmem => absurd (h.isAtomChar _ hmem) (by decide)

theorem notMem_name (builtin : Builtin) : '\n' ∉ builtin.name.toList := by
  cases builtin <;> decide

theorem notMem_word (keyword : Keyword) : '\n' ∉ keyword.word.toList := by
  cases keyword <;> decide

theorem notMem_heading_of_read (error : ReadError) : '\n' ∉ error.caption.heading.toList := by
  cases error with
  | endOfInput => decide
  | strayClose => exact (by decide : '\n' ∉ "Unexpected ')'".toList)
  | unclosed => exact (by decide : '\n' ∉ "Unbalanced expression".toList)

/-- The heading for a fault of a node that was read from a text is one line. -/
theorem notMem_heading_of_blames {known : Node → Prop} {fault : Fault} {node : Node}
    (hnode : Reader.MadeOf (Token.tokenize text) node) (h : fault.Blames known node) :
    '\n' ∉ fault.caption.heading.toList := by
  have hquoted : ∀ {intro word outro : String}, '\n' ∉ intro.toList → '\n' ∉ word.toList →
      '\n' ∉ outro.toList → '\n' ∉ (intro ++ word ++ outro).toList :=
    fun hintro hword houtro => notMem_append (notMem_append hintro hword) houtro
  cases h with
  | unboundName => exact hquoted (by decide) (notMem_of_isWord hnode.isName.word) (by decide)
  | emptyApplication => decide
  | notCallable => exact notMem_append (by decide) (notMem_of_isWord (Number.isWord_render _))
  | @arityMismatch callee =>
    refine hquoted (by decide) ?_ (by decide)
    cases callee with
    | builtin builtin => exact notMem_name builtin
    | lambda => decide
  | typeMismatch => exact hquoted (by decide) (notMem_name _) (by decide)
  | divisionByZero => exact hquoted (by decide) (notMem_name _) (by decide)
  | malformed => exact hquoted (by decide) (notMem_word _) (by decide)
  | parameter => exact hquoted (by decide) (notMem_word _) (by decide)

end Report

/-! ## Faults of a text in a new session -/

namespace Session

open Report

variable {text : String} {error : SourceError} {span : Span} {before rest : List Char} {c : Char}

/-- What is at fault in a text on its own is some of its characters. -/
theorem Located.within (h : Located [text] text error) (hspan : error.span? = some span) :
    span.Within text.toList ∧ span.start < span.stop := by
  cases error with
  | eval error =>
    cases hspan
    obtain ⟨source, hsource, node, hreads, hnode, -⟩ := h
    cases List.mem_singleton.mp hsource
    have hlt := hreads.madeOf.start_lt_stop fun _ => (lexes_tokenize text).start_lt_stop
    exact hnode ▸ ⟨hreads.within, hlt⟩
  | read error =>
    rcases h with ⟨place, rfl, hmem⟩ | ⟨place, rfl, hmem⟩
    · cases hspan
      exact ⟨within_of_mem_tokenize hmem, (lexes_tokenize text).start_lt_stop hmem⟩
    · cases hspan
      exact ⟨within_of_mem_tokenize hmem, (lexes_tokenize text).start_lt_stop hmem⟩
  | unreadable => cases hspan

/-- The report of an error in a text on its own shows the place of its span. -/
theorem Located.locates_iff (h : Located [text] text error) (hspan : error.span? = some span)
    (hends : EndsLines text.toList) (name : String) (place : Place) :
    Locates (error.report name text) name place ↔
      span.stop ≤ text.toList.length + 1 ∧ place = placeOf (lines text) span.start := by
  have hlt := (h.within hspan).2
  cases error with
  | eval error =>
    cases hspan
    obtain ⟨source, hsource, node, hreads, -, hblames⟩ := h
    cases List.mem_singleton.mp hsource
    exact locates_render_iff hends (notMem_heading_of_blames hreads.madeOf hblames) hlt name place
  | read error =>
    have hread : error.span? = some span := hspan
    have hreport : (SourceError.read error).report name text =
        render name text error.caption span := by
      rw [SourceError.report, ofReadError, hread, Option.getD_some]
    rw [hreport]
    exact locates_render_iff hends (notMem_heading_of_read error) hlt name place
  | unreadable => cases hspan

/-- The fault begins with a character. -/
theorem Located.exists_start (h : Located [text] text error) (hspan : error.span? = some span) :
    ∃ before c rest, text.toList = before ++ c :: rest ∧ byteSize before = span.start := by
  obtain ⟨hwithin, hlt⟩ := h.within hspan
  obtain ⟨before, after, htext, hstart⟩ := hwithin.start
  cases after with
  | cons c rest => exact ⟨before, c, rest, htext, hstart⟩
  | nil =>
    have hle := hwithin.stop.le
    rw [htext, List.append_nil] at hle
    omega

theorem length_le_byteSize (chars : List Char) : chars.length ≤ byteSize chars := by
  induction chars with
  | nil => exact Nat.le_refl _
  | cons d rest ih =>
    have hpos := d.utf8Size_pos
    simp only [List.length_cons, byteSize]
    omega

/-- Characters are as many as their bytes only if each one takes one byte. -/
theorem length_eq_byteSize_iff (chars : List Char) :
    chars.length = byteSize chars ↔ ∀ d ∈ chars, d.utf8Size = 1 := by
  induction chars with
  | nil => simp [byteSize]
  | cons d rest ih =>
    have hpos := d.utf8Size_pos
    have hrest := length_le_byteSize rest
    have hsplit : (d :: rest).length = byteSize (d :: rest) ↔
        d.utf8Size = 1 ∧ rest.length = byteSize rest := by
      simp only [List.length_cons, byteSize]
      omega
    rw [hsplit, ih, List.forall_mem_cons]

/-- A report takes the byte offset of a fault as a number of characters.  It shows the location of
the fault if every character in front of it takes one byte, and only then.  Otherwise it shows the
location of a character further on, or none if the fault seems to end behind the text. -/
theorem locates_iff_of_new {depth : Nat} {after : Session} (hends : EndsLines text.toList)
    (heval : Session.new.eval depth text = some (.error error, after))
    (hspan : error.span? = some span) :
    ∃ before c rest, text.toList = before ++ c :: rest ∧ byteSize before = span.start ∧
      ∀ name,
        (Locates (error.report name text) name (placeAfter before) ↔
          (∀ d ∈ before, d.utf8Size = 1) ∧ span.stop ≤ text.toList.length + 1) ∧
        (∀ front d back, text.toList = front ++ d :: back → front.length = span.start →
          span.stop ≤ text.toList.length + 1 →
          Locates (error.report name text) name (placeAfter front)) ∧
        (text.toList.length + 1 < span.stop →
          ∀ place, ¬ Locates (error.report name text) name place) := by
  have hlocated : Located [text] text error := Reached.new.located heval
  obtain ⟨before, c, rest, htext, hstart⟩ := hlocated.exists_start hspan
  refine ⟨before, c, rest, htext, hstart, fun name => ⟨?_, ?_, ?_⟩⟩
  · rw [hlocated.locates_iff hspan hends, ← placeOf_lines htext hends, and_comm,
      ← length_eq_byteSize_iff, hstart]
    refine and_congr_left fun _ => ⟨placeOf_inj hends, fun h => ?_⟩
    rw [h]
  · intro front d back hfront hlength hstop
    refine (hlocated.locates_iff hspan hends name _).mpr ⟨hstop, ?_⟩
    rw [← hlength, placeOf_lines hfront hends]
  · intro hstop place h
    have hle := ((hlocated.locates_iff hspan hends name place).mp h).1
    omega

/-- In `(define é x)` the name `x` is unbound. -/
theorem eval_behind_accent :
    Session.new.eval 2 "(define é x)" =
      some (.error (.eval ⟨.unboundName "x", ⟨11, 12⟩⟩), Session.new) :=
  eval_of_read
    (.list [.symbol "define" ⟨1, 7⟩, .symbol "é" ⟨8, 10⟩, .symbol "x" ⟨11, 12⟩] ⟨0, 13⟩)
    (.error ⟨.unboundName "x", ⟨11, 12⟩⟩) (by rfl) (by with_unfolding_all rfl)

theorem endsLines_behind_accent : EndsLines "(define é x)".toList := by
  decide

/-- The report of `(define é x)` shows the place of the paren behind `x`. -/
theorem locates_behind_accent :
    Session.new.eval 2 "(define é x)" =
        some (.error (.eval ⟨.unboundName "x", ⟨11, 12⟩⟩), Session.new) ∧
      EndsLines "(define é x)".toList ∧
      Locates (SourceError.report "t" "(define é x)" (.eval ⟨.unboundName "x", ⟨11, 12⟩⟩)) "t"
        ⟨0, 11⟩ := by
  have hreport := locates_iff_of_new endsLines_behind_accent eval_behind_accent rfl
  obtain ⟨before, c, rest, -, -, hlocates⟩ := hreport
  obtain ⟨-, hfurther, -⟩ := hlocates "t"
  exact ⟨eval_behind_accent, endsLines_behind_accent,
    hfurther "(define é x".toList ')' [] (by decide) (by decide) (by decide)⟩

/-- The location in a report is not always that of the character at the start of the fault. -/
theorem not_locates_of_new :
    ¬ ∀ depth text error after span before c rest name, EndsLines text.toList →
      Session.new.eval depth text = some (.error error, after) → error.span? = some span →
      text.toList = before ++ c :: rest → byteSize before = span.start →
      Locates (error.report name text) name (placeAfter before) := by
  intro h
  have hlocates := h 2 _ _ _ _ "(define é ".toList 'x' [')'] "t" endsLines_behind_accent
    eval_behind_accent rfl (by decide) (by decide)
  have hlocated : Located ["(define é x)"] "(define é x)" _ :=
    Reached.new.located eval_behind_accent
  have hplace := ((hlocated.locates_iff rfl endsLines_behind_accent _ _).mp hlocates).2
  exact absurd hplace (by decide)

end Session

end TinyLisp
