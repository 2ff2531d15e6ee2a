import TinyLisp.Proofs.Lexing
import TinyLisp.Proofs.Provenance
import TinyLisp.Proofs.Respan

/-!
# Which text an error belongs to

An error is shown in the text that was evaluated last.  That is right only if the node at fault
stands in that text, and a closure of an earlier text may fail as well.

Blanks in front of a text tell the two apart.  They move every node and every paren of the text,
and nothing else: an error that belongs to the text follows it, and one that does not stays.

There are four groups.

* `Marks`: the spans that mark something in a text, and what blanks in front of it change.
* Two marks for spans, an odd one for the text at hand and an even one for all that is older.
  One evaluation with marked spans stands for those of the text behind any number of blanks.
* `follows_or_stays`: which of the two an error does, and whose node is at fault.
* `labelled_iff_follows`: when an error is shown in the right text.
-/

namespace TinyLisp

open Text (byteSize)

namespace Session

/-! ## Marks -/

variable {text : String} {span : Span} {blanks : String}

/-- The span is a range of the text, and exactly that of a node or a paren in it. -/
structure Marks (text : String) (span : Span) : Prop where
  within : span.Within text.toList
  covered : (∃ node, Reads text node ∧ node.span = span) ∨
    ∃ kind, (kind = .opening ∨ kind = .closing) ∧ ⟨kind, span⟩ ∈ Token.tokenize text

/-- A node of a text is made of its tokens. -/
theorem Reads.madeOf {node : Node} (h : Reads text node) :
    Reader.MadeOf (Token.tokenize text) node := by
  obtain ⟨form, hform, hpart⟩ := h
  obtain ⟨taken, rest, htokens, hspells, -⟩ := Reader.readAll_spells (Token.tokenize text)
  have hsubset : taken ⊆ Token.tokenize text := htokens ▸ List.subset_append_left taken rest
  exact (hspells.madeOf hform hpart).mono hsubset

/-- The span of a node is a range of its text. -/
theorem Reads.within {node : Node} (h : Reads text node) : node.span.Within text.toList := by
  cases h.madeOf with
  | atom hatom => simpa using within_of_mem_tokenize hatom
  | list hopening hclosing =>
    exact (within_of_mem_tokenize hopening).merge (within_of_mem_tokenize hclosing)

theorem Reads.marks {node : Node} (h : Reads text node) : Marks text node.span :=
  ⟨h.within, .inl ⟨node, h, rfl⟩⟩

theorem marks_of_mem_tokenize {kind : TokenKind} (hkind : kind = .opening ∨ kind = .closing)
    (h : ⟨kind, span⟩ ∈ Token.tokenize text) : Marks text span :=
  ⟨within_of_mem_tokenize h, .inr ⟨kind, hkind, h⟩⟩

/-- Blanks in front of a text move its forms. -/
theorem forms_blanks_append (h : Blank blanks) (text : String) :
    forms (blanks ++ text) =
      (forms text).map (Node.respan (Span.shift (byteSize blanks.toList))) := by
  rw [forms, tokenize_blanks_append h, Reader.readAll_respan (Span.shift_merge _), forms]

/-- Blanks in front of a text move its first fault. -/
theorem fault?_blanks_append (h : Blank blanks) (text : String) :
    fault? (blanks ++ text) =
      (fault? text).map (ReadError.respan (Span.shift (byteSize blanks.toList))) := by
  rw [fault?, tokenize_blanks_append h, Reader.readAll_respan (Span.shift_merge _), fault?]

theorem reads_blanks_append_iff (h : Blank blanks) {node : Node} :
    Reads (blanks ++ text) node ↔
      ∃ old, Reads text old ∧ node = old.respan (Span.shift (byteSize blanks.toList)) := by
  simp only [Reads, forms_blanks_append h, List.mem_map]
  constructor
  · rintro ⟨_, ⟨form, hform, rfl⟩, hpart⟩
    obtain ⟨old, hold, rfl⟩ := Node.part_respan_iff.mp hpart
    exact ⟨old, ⟨form, hform, hold⟩, rfl⟩
  · rintro ⟨old, ⟨form, hform, hold⟩, rfl⟩
    exact ⟨_, ⟨form, hform, rfl⟩, Node.part_respan_iff.mpr ⟨old, hold, rfl⟩⟩

/-- Blanks in front of a text move its marks. -/
theorem Marks.blanks_append (hblanks : Blank blanks) (h : Marks text span) :
    Marks (blanks ++ text) (span.shift (byteSize blanks.toList)) := by
  rcases h.covered with ⟨node, hreads, rfl⟩ | ⟨kind, hkind, hmem⟩
  · have hmoved := (reads_blanks_append_iff hblanks).mpr ⟨node, hreads, rfl⟩
    simpa using hmoved.marks
  · refine marks_of_mem_tokenize hkind ?_
    rw [tokenize_blanks_append hblanks]
    exact List.mem_map_of_mem hmem

/-- Nothing in the blanks is marked. -/
theorem Marks.le_start (hblanks : Blank blanks) (h : Marks (blanks ++ text) span) :
    byteSize blanks.toList ≤ span.start := by
  rcases h.covered with ⟨node, hreads, rfl⟩ | ⟨kind, -, hmem⟩
  · obtain ⟨old, -, rfl⟩ := (reads_blanks_append_iff hblanks).mp hreads
    rw [Node.span_respan]
    exact Nat.le_add_left _ _
  · rw [tokenize_blanks_append hblanks] at hmem
    obtain ⟨token, -, heq⟩ := List.mem_map.mp hmem
    cases heq
    exact Nat.le_add_left _ _

end Session

/-! ## Own and older spans -/

namespace Span

/-- The span, marked as one of the text at hand. -/
def own (span : Span) : Span :=
  ⟨2 * span.start + 1, 2 * span.stop + 1⟩

/-- The span, marked as one of an older text. -/
def older (span : Span) : Span :=
  ⟨2 * span.start, 2 * span.stop⟩

/-- Takes the mark off, and moves the spans of the text at hand by `count` bytes. -/
def place (count : Nat) (span : Span) : Span :=
  if span.start % 2 = 1 then ⟨span.start / 2 + count, span.stop / 2 + count⟩
  else ⟨span.start / 2, span.stop / 2⟩

theorem own_start_odd (span : Span) : span.own.start % 2 = 1 := by
  simp only [own]
  omega

theorem older_start_even (span : Span) : ¬span.older.start % 2 = 1 := by
  simp only [older]
  omega

theorem place_own (count : Nat) (span : Span) : span.own.place count = span.shift count := by
  rw [place, if_pos span.own_start_odd]
  simp only [own, shift, Span.mk.injEq]
  omega

theorem place_older (count : Nat) (span : Span) : span.older.place count = span := by
  rw [place, if_neg span.older_start_even]
  simp only [older]
  congr 1 <;> omega

theorem shift_zero : shift 0 = id := rfl

end Span

open Evaluation

/-- One evaluation with marked spans stands for those of the forms at any offset. -/
theorem evalForms_shift (depth frame count : Nat) (forms : List Node) (store : Store) :
    evalForms depth frame none (forms.map (Node.respan (Span.shift count))) store =
      (evalForms depth frame none (forms.map (Node.respan Span.own))
        (store.respan Span.older)).map
          (respanAnswer (Span.place count) (Option.map (Value.respan (Span.place count)))) := by
  have hown : Span.place count ∘ Span.own = Span.shift count := funext (Span.place_own count)
  have holder : Span.place count ∘ Span.older = id := funext (Span.place_older count)
  have hrespan := evalForms_respan (g := Span.place count) depth frame none
    (forms.map (Node.respan Span.own)) (store.respan Span.older)
  have hforms : (forms.map (Node.respan Span.own)).map (Node.respan (Span.place count)) =
      forms.map (Node.respan (Span.shift count)) := by
    simp [Node.respan_respan, hown]
  rw [hforms, Store.respan_respan, holder, Store.respan_id] at hrespan
  exact hrespan

/-- What the forms give is what they give with marked spans, without the marks. -/
theorem exists_marked {depth frame : Nat} {forms : List Node} {store after : Store}
    {answer : Except EvalError (Option Value)}
    (h : evalForms depth frame none forms store = some (answer, after)) :
    ∃ marked left, evalForms depth frame none (forms.map (Node.respan Span.own))
        (store.respan Span.older) = some (marked, left) ∧
      respanAnswer (Span.place 0) (Option.map (Value.respan (Span.place 0))) (marked, left) =
        (answer, after) := by
  have hshift := evalForms_shift depth frame 0 forms store
  have hid : Node.respan id = id := funext fun _ => Node.respan_id
  have hforms : forms.map (Node.respan (Span.shift 0)) = forms := by
    rw [Span.shift_zero, hid, List.map_id]
  rw [hforms, h, eq_comm, Option.map_eq_some_iff] at hshift
  obtain ⟨⟨marked, left⟩, hmarked, hanswer⟩ := hshift
  exact ⟨marked, left, hmarked, hanswer⟩

/-- An error with marked spans blames a part of a form, or of the body of a closure that was
there before. -/
theorem exists_part_of_marked_error {depth frame : Nat} {forms : List Node} {store after : Store}
    {error : EvalError} (hosts : store.Hosts frame)
    (h : evalForms depth frame none (forms.map (Node.respan Span.own))
      (store.respan Span.older) = some (.error error, after)) :
    (∃ form ∈ forms, ∃ node : Node, node.Part form ∧ error.span = node.span.own) ∨
      ∃ closure, store.Binds closure ∧
        ∃ node : Node, node.Part closure.body ∧ error.span = node.span.older := by
  let known (node : Node) : Prop := (∃ form ∈ forms, node.Part (form.respan Span.own)) ∨
    ∃ closure, store.Binds closure ∧ node.Part (closure.body.respan Span.older)
  have hchild : ∀ {children span child}, known (.list children span) → child ∈ children →
      known child := by
    rintro children span child (⟨form, hform, hpart⟩ | ⟨closure, hbinds, hpart⟩) hmem
    · exact .inl ⟨form, hform, (Node.Part.of_mem hmem).trans hpart⟩
    · exact .inr ⟨closure, hbinds, (Node.Part.of_mem hmem).trans hpart⟩
  have horigin : Origin known fun closure => known closure.body :=
    ⟨hchild, id, fun hlist _ _ => hchild hlist (by simp)⟩
  have hknown : ∀ form ∈ forms.map (Node.respan Span.own), Due known form := by
    intro form hform
    obtain ⟨old, hold, rfl⟩ := List.mem_map.mp hform
    exact .known (.inl ⟨old, hold, .self⟩)
  have hstore : (store.respan Span.older).ForClosures fun closure => known closure.body := by
    rw [Store.forClosures_respan_iff, Store.forClosures_iff]
    exact fun closure hbinds => .inr ⟨closure, hbinds, .self⟩
  have hhosts : (store.respan Span.older).Hosts frame :=
    ⟨hosts.wellFormed.respan, by simpa [Store.respan] using hosts.lt_size⟩
  have hkeeps := evalForms_keeps (fun form hmem _ _ _ hstore hderives =>
    (hderives.traced horigin hstore (hknown form hmem)).1) hhosts hstore h
  obtain ⟨form, hmem, between, hbetween, hderives⟩ := hkeeps.2 error rfl
  obtain ⟨node, hnode, hspan, -⟩ := (hderives.traced horigin hbetween (hknown form hmem)).2
  rcases hnode with ⟨form, hform, hpart⟩ | ⟨closure, hbinds, hpart⟩
  · obtain ⟨old, hold, rfl⟩ := Node.part_respan_iff.mp hpart
    exact .inl ⟨form, hform, old, hold, by simpa using hspan.symm⟩
  · obtain ⟨old, hold, rfl⟩ := Node.part_respan_iff.mp hpart
    exact .inr ⟨closure, hbinds, old, hold, by simpa using hspan.symm⟩

/-! ## Errors that follow and errors that stay -/

/-- The error with `g` applied to its span. -/
def SourceError.respan (g : Span → Span) : SourceError → SourceError
  | read error => read (error.respan g)
  | eval error => eval (error.respan g)
  | unreadable path reason => unreadable path reason

theorem SourceError.span?_respan (g : Span → Span) (error : SourceError) :
    (error.respan g).span? = error.span?.map g := by
  rcases error with error | error | ⟨path, reason⟩
  · cases error <;> rfl
  · rfl
  · rfl

namespace Session

variable {depth : Nat} {session after : Session} {text : String} {error : SourceError}
  {span : Span}

/-- Blanks in front of the text move the error as much as the text. -/
def Follows (depth : Nat) (session : Session) (text : String) (error : SourceError) : Prop :=
  ∀ blanks, Blank blanks → ∃ after, session.eval depth (blanks ++ text) =
    some (.error (error.respan (Span.shift (byteSize blanks.toList))), after)

/-- Blanks in front of the text leave the error where it is. -/
def Stays (depth : Nat) (session : Session) (text : String) (error : SourceError) : Prop :=
  ∀ blanks, Blank blanks →
    ∃ after, session.eval depth (blanks ++ text) = some (.error error, after)

/-- The error of a call, if it has a span, is shown at a node or a paren of the text. -/
def Labelled (depth : Nat) (session : Session) (text : String) : Prop :=
  ∀ error after span, session.eval depth text = some (.error error, after) →
    error.span? = some span → Marks text span

/-- What a call gives behind blanks, from the evaluation with marked spans. -/
theorem exists_eval_blanks_append {blanks : String} (hblanks : Blank blanks)
    {marked : Except EvalError (Option Value)} {left : Store}
    (h : evalForms depth session.root none ((forms text).map (Node.respan Span.own))
      (session.store.respan Span.older) = some (marked, left)) :
    ∃ after, session.eval depth (blanks ++ text) = some
      (sourceResult
        ((marked.mapError (EvalError.respan (Span.place (byteSize blanks.toList)))).map
          (Option.map (Value.respan (Span.place (byteSize blanks.toList)))))
        ((fault? text).map (ReadError.respan (Span.shift (byteSize blanks.toList)))), after) := by
  have hforms := evalForms_shift depth session.root (byteSize blanks.toList) (forms text)
    session.store
  rw [← forms_blanks_append hblanks, h, Option.map_some] at hforms
  rw [← fault?_blanks_append hblanks]
  exact ⟨_, eval_eq_some_iff.mpr ⟨_, _, hforms, rfl, rfl⟩⟩

/-- The span of a fault of reading marks a paren of the text. -/
theorem marks_of_fault? {fault : ReadError} (hfault : fault? text = some fault)
    (hspan : (SourceError.read fault).span? = some span) : Marks text span := by
  rcases Reader.mem_of_readAll hfault with ⟨place, rfl, hmem⟩ | ⟨place, rfl, hmem⟩
  · cases hspan
    exact marks_of_mem_tokenize (.inr rfl) hmem
  · cases hspan
    exact marks_of_mem_tokenize (.inl rfl) hmem

/-- A fault of reading follows its text, for the forms in front of it succeed at every
offset. -/
theorem follows_of_fault? {fault : ReadError} {value : Option Value} {store : Store}
    (hfault : fault? text = some fault)
    (hforms : evalForms depth session.root none (forms text) session.store =
      some (.ok value, store)) : Follows depth session text (.read fault) := by
  intro blanks hblanks
  obtain ⟨marked, left, hmarked, hanswer⟩ := exists_marked hforms
  cases marked with
  | error blamed => cases hanswer
  | ok plain =>
    have hmoved := exists_eval_blanks_append hblanks hmarked
    rw [hfault] at hmoved
    exact hmoved

/-- The error of a form follows the text if a part of it is to blame, and stays if a part of a
closure that was there before is. -/
theorem eval_follows_or_stays {blamed : EvalError} {store : Store}
    (hosts : session.store.Hosts session.root)
    (hforms : evalForms depth session.root none (forms text) session.store =
      some (.error blamed, store)) :
    (Follows depth session text (.eval blamed) ∧
        ∃ node, Reads text node ∧ node.span = blamed.span) ∨
      (Stays depth session text (.eval blamed) ∧ ∃ closure, session.store.Binds closure ∧
        ∃ node : Node, node.Part closure.body ∧ node.span = blamed.span) := by
  obtain ⟨marked, left, hmarked, hanswer⟩ := exists_marked hforms
  cases marked with
  | ok value => cases hanswer
  | error marked =>
    cases hanswer
    have hfails : ∀ blanks, Blank blanks → ∃ after, session.eval depth (blanks ++ text) =
        some (.error (.eval (marked.respan (Span.place (byteSize blanks.toList)))), after) :=
      fun _ hblanks => exists_eval_blanks_append hblanks hmarked
    rcases exists_part_of_marked_error hosts hmarked with
      ⟨form, hform, node, hpart, hown⟩ | ⟨closure, hbinds, node, hpart, holder⟩
    · have hspan : (marked.respan (Span.place 0)).span = node.span := by
        rw [EvalError.respan, hown, Span.place_own, Span.shift_zero]
        rfl
      refine .inl ⟨fun blanks hblanks => ?_, node, ⟨form, hform, hpart⟩, hspan.symm⟩
      have hplace : marked.respan (Span.place (byteSize blanks.toList)) =
          (marked.respan (Span.place 0)).respan (Span.shift (byteSize blanks.toList)) := by
        simp only [EvalError.respan, hown, Span.place_own, Span.shift_zero, id]
      rw [SourceError.respan, ← hplace]
      exact hfails blanks hblanks
    · have hspan : (marked.respan (Span.place 0)).span = node.span := by
        rw [EvalError.respan, holder, Span.place_older]
      refine .inr ⟨fun blanks hblanks => ?_, closure, hbinds, node, hpart, hspan.symm⟩
      have hplace : marked.respan (Span.place (byteSize blanks.toList)) =
          marked.respan (Span.place 0) := by
        simp only [EvalError.respan, holder, Span.place_older]
      rw [← hplace]
      exact hfails blanks hblanks

/-- The error of a call follows its text and is shown in it, or it stays and blames a part of a
closure that was there before. -/
theorem follows_or_stays (hosts : session.store.Hosts session.root)
    (heval : session.eval depth text = some (.error error, after))
    (hspan : error.span? = some span) :
    (Follows depth session text error ∧ Marks text span) ∨
      (Stays depth session text error ∧ ∃ closure, session.store.Binds closure ∧
        ∃ node : Node, node.Part closure.body ∧ node.span = span) := by
  obtain ⟨answer, store, hforms, hresult, -⟩ := eval_eq_some_iff.mp heval
  rcases sourceResult_eq_error hresult.symm with
    ⟨blamed, rfl, rfl⟩ | ⟨value, fault, rfl, hfault, rfl⟩
  · cases hspan
    rcases eval_follows_or_stays hosts hforms with ⟨hfollows, node, hreads, hnode⟩ | hstays
    · exact .inl ⟨hfollows, hnode ▸ hreads.marks⟩
    · exact .inr hstays
  · exact .inl ⟨follows_of_fault? hfault hforms, marks_of_fault? hfault hspan⟩

/-- So many spaces. -/
def spaces (count : Nat) : String :=
  String.ofList (List.replicate count ' ')

theorem blank_spaces (count : Nat) : Blank (spaces count) := by
  intro c hmem
  rw [spaces, String.toList_ofList] at hmem
  rw [List.eq_of_mem_replicate hmem]
  decide

theorem byteSize_spaces (count : Nat) : byteSize (spaces count).toList = count := by
  rw [spaces, String.toList_ofList]
  induction count with
  | zero => rfl
  | succ count ih =>
    rw [List.replicate_succ, byteSize, ih, Nat.add_comm]
    rfl

/-- No error does both. -/
theorem Stays.not_follows (hspan : error.span? = some span)
    (hstays : Stays depth session text error) : ¬Follows depth session text error := by
  intro hfollows
  obtain ⟨after, hsame⟩ := hstays (spaces 1) (blank_spaces 1)
  obtain ⟨later, hmoved⟩ := hfollows (spaces 1) (blank_spaces 1)
  rw [hsame, byteSize_spaces, Option.some.injEq, Prod.mk.injEq, Except.error.injEq] at hmoved
  have hshift := congrArg SourceError.span? hmoved.1
  rw [SourceError.span?_respan, hspan, Option.map_some, Option.some.injEq] at hshift
  have hstart := congrArg Span.start hshift
  simp [Span.shift] at hstart

/-- Behind enough blanks the span of an error that stays marks nothing. -/
theorem Stays.not_labelled (hspan : error.span? = some span)
    (hstays : Stays depth session text error) :
    ¬Labelled depth session (spaces (span.start + 1) ++ text) := by
  intro hlabelled
  obtain ⟨after, hsame⟩ := hstays _ (blank_spaces (span.start + 1))
  have hmarks := hlabelled error after span hsame hspan
  have hle := hmarks.le_start (blank_spaces _)
  rw [byteSize_spaces] at hle
  omega

/-- The error of a call in a session that can be reached is shown in the right text, wherever
that text begins, exactly if it follows the text.  If it does not, then it is the error of a
closure that was bound before the call, and the node at fault was read from an older text. -/
theorem Reached.labelled_iff_follows {texts : List String} (h : Reached texts session)
    (heval : session.eval depth text = some (.error error, after))
    (hspan : error.span? = some span) :
    ((∀ blanks, Blank blanks → Labelled depth session (blanks ++ text)) ↔
        Follows depth session text error) ∧
      (Follows depth session text error → Marks text span) ∧
      (¬Follows depth session text error → Stays depth session text error ∧
        ∃ closure, session.store.Binds closure ∧
          ∃ node : Node, node.Part closure.body ∧ node.span = span ∧ ReadFrom texts node) := by
  rcases follows_or_stays h.hosts heval hspan with
    ⟨hfollows, hmarks⟩ | ⟨hstays, closure, hbinds, node, hpart, hnode⟩
  · have hlabelled : ∀ blanks, Blank blanks → Labelled depth session (blanks ++ text) := by
      intro blanks hblanks other left place hother hplace
      obtain ⟨moved, hmoved⟩ := hfollows blanks hblanks
      rw [hother] at hmoved
      cases hmoved
      rw [SourceError.span?_respan, hspan] at hplace
      cases hplace
      exact hmarks.blanks_append hblanks
    exact ⟨⟨fun _ => hfollows, fun _ => hlabelled⟩, fun _ => hmarks,
      fun hnot => absurd hfollows hnot⟩
  · have hnot := hstays.not_follows hspan
    have hbody := Store.forClosures_iff.mp h.forClosures closure hbinds
    refine ⟨⟨fun hlabelled => ?_, fun hfollows => absurd hfollows hnot⟩,
      fun hfollows => absurd hfollows hnot,
      fun _ => ⟨hstays, closure, hbinds, node, hpart, hnode, hbody.part hpart⟩⟩
    exact absurd (hlabelled _ (blank_spaces _)) (hstays.not_labelled hspan)

/-- The error of `(f f)` does not follow that text: it stands where no text of five bytes ends. -/
theorem stays_in_earlier_text :
    Reached ["(define f (lambda (x) (+ 1 x)))"] incrementing ∧
      ¬Follows 4 incrementing "(f f)" (.eval ⟨.typeMismatch .add 2 .lambda, ⟨22, 29⟩⟩) ∧
      Stays 4 incrementing "(f f)" (.eval ⟨.typeMismatch .add 2 .lambda, ⟨22, 29⟩⟩) := by
  obtain ⟨-, hmarks, hstays⟩ :=
    reached_incrementing.labelled_iff_follows incrementing_eval rfl
  have hnot : ¬Follows 4 incrementing "(f f)"
      (.eval ⟨.typeMismatch .add 2 .lambda, ⟨22, 29⟩⟩) := by
    intro hfollows
    have hle := (hmarks hfollows).within.stop.le
    revert hle
    decide
  exact ⟨reached_incrementing, hnot, (hstays hnot).1⟩

/-- An error is shown beyond the end of its text. -/
theorem not_labelled_of_reached :
    ¬∀ texts session depth text, Reached texts session → Labelled depth session text := by
  intro hall
  have hmarks := hall _ _ 4 "(f f)" reached_incrementing _ _ _ incrementing_eval rfl
  have hle := hmarks.within.stop.le
  revert hle
  decide

end Session

end TinyLisp
