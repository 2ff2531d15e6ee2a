import TinyLisp.Proofs.Layout

/-!
# Forms in a row and the operands of `begin`

The forms of a text are evaluated one after the other, and so are the operands of an application.
The builtin `begin` gives its last argument, so `(begin form …)` gives what the forms give in a
row, and does what they do.  What the head is bound to is looked up before the operands are
evaluated, so this holds even if one of the forms binds `begin` to something else.

* `evalForms_eq_each`: forms in a row give the last of their values.
* `eval_sequence`: the application of `begin` gives the last value of its operands.
* `Session.isForm_sequence`: the text of the application, made from the text of the forms.
* `Session.eval_sequence_alike`: texts in sessions.
-/

namespace TinyLisp

open Evaluation

/-- `(begin form …)`, with the spans of the application and its head. -/
def Node.sequence (forms : List Node) (word span : Span) : Node :=
  .list (.symbol Builtin.sequence.name word :: forms) span

/-! ## Values in a row -/

section Forms

variable {depth frame : Nat} {store : Store} {word span : Span}

/-- Forms in a row give the last of their values, or the one before them. -/
theorem evalForms_some_eq_each (depth frame : Nat) (last : Value) (forms : List Node) :
    evalForms depth frame (some last) forms =
      Eval.each (eval depth) frame forms >>= fun values =>
        pure (some (values.getLast?.getD last)) := by
  induction forms generalizing last with
  | nil => simp [evalForms, Eval.each]
  | cons form rest ih => simp [evalForms, Eval.each, ih, List.getLast?_cons]

theorem evalForms_eq_each (depth frame : Nat) {forms : List Node} (hne : forms ≠ []) :
    evalForms depth frame none forms =
      Eval.each (eval depth) frame forms >>= fun values =>
        pure (some (values.getLast?.getD (.number 0))) := by
  obtain ⟨form, rest, rfl⟩ := List.exists_cons_of_ne_nil hne
  simp [evalForms, Eval.each, evalForms_some_eq_each, List.getLast?_cons]

/-- A name that a frame binds is looked up there. -/
theorem Store.lookup?_of_get? {name : String} {value : Value}
    (h : store.get? frame name = some value) : store.lookup? frame name = some value := by
  have hfind : store.find? frame name = some frame := by
    rw [find?_eq, h, Option.isSome_some, if_pos rfl]
  simp only [lookup?, hfind, h]

/-- The application of `begin` gives the last value of its operands, whatever they bind. -/
theorem eval_sequence {forms : List Node} (hne : forms ≠ [])
    (hbegin : store.get? frame Builtin.sequence.name = some (.procedure (.builtin .sequence))) :
    eval (depth + 1) frame (.sequence forms word span) store =
      (Eval.each (eval depth) frame forms >>= fun values =>
        pure (values.getLast?.getD (.number 0))) store := by
  have happlication : eval (depth + 1) frame (.sequence forms word span) =
      Eval.application (eval depth) frame (.symbol Builtin.sequence.name word) forms span := by
    rfl
  rw [happlication, Eval.application, bind_apply]
  cases depth with
  | zero =>
    -- Neither the head nor an operand is answered.
    obtain ⟨form, rest, rfl⟩ := List.exists_cons_of_ne_nil hne
    rfl
  | succ depth =>
    have hhead : eval (depth + 1) frame (.symbol Builtin.sequence.name word) store =
        some (.ok (.procedure (.builtin .sequence)), store) := by
      simp only [eval, Eval.step, Eval.symbolValue_apply, Store.lookup?_of_get? hbegin]
    rw [hhead]
    rfl

/-- Forms in a row do and give what the application of `begin` to them does and gives. -/
theorem evalForms_eq_evalForms_sequence {forms : List Node} (hne : forms ≠ [])
    (hbegin : store.get? frame Builtin.sequence.name = some (.procedure (.builtin .sequence))) :
    evalForms depth frame none forms store =
      evalForms (depth + 1) frame none [.sequence forms word span] store := by
  rw [evalForms_eq_each depth frame hne, evalForms, bind_apply, bind_apply,
    eval_sequence hne hbegin, bind_apply]
  rcases Eval.each (eval depth) frame forms store with _ | ⟨_ | values, after⟩ <;> rfl

end Forms

/-! ## Texts -/

/-- Wherever a text without a fault stands, it is read as its forms. -/
theorem Reader.writes_of_parse {text : String} {forms : List Node} (h : parse text = .ok forms) :
    Writes forms text.toList := by
  intro pos
  have hread := readAll_respan (Span.shift_merge pos) (Token.tokenize text)
  rw [readAll_eq_none_iff.mpr (parse_eq_ok_iff.mp h)] at hread
  have hlexes := (lexes_tokenize text).shift pos
  rw [Nat.zero_add] at hlexes
  exact ⟨_, _, hlexes, readAll_eq_none_iff.mp hread, by simp [Function.comp_def]⟩

namespace Session

variable {session : Session} {source block : String} {forms : List Node}

/-- The text of some forms, with `begin` and blanks in front and parens around it, is the
application of `begin` to these forms. -/
theorem isForm_sequence (hparse : Reader.parse source = .ok forms) {gap : String} (hne : gap ≠ "")
    (hgap : Blank gap) (word span : Span) :
    IsForm ("(begin" ++ gap ++ source ++ ")") (.sequence forms word span) := by
  have hword : IsWord "begin" := ⟨by decide, List.all_eq_true.mp (by decide)⟩
  have hhead : Writes [.symbol "begin" word] "begin".toList := .atom hword word
  have hforms := (Reader.writes_of_parse hparse).blanks_append hgap
  have hinner := hhead.append (endsWord_blanks_append hne hgap source.toList) hforms
  have htext : ("(begin" ++ gap ++ source ++ ")").toList =
      '(' :: ("begin".toList ++ (gap.toList ++ source.toList) ++ [')']) := by
    simp
  refine isForm_of_writes ?_
  rw [htext]
  exact hinner.list span

/-- Forms in a row and the application of `begin` to them are alike.  If `begin` is bound to the
builtin, then the text of some forms and any text of the application give the same results and leave
the same sessions behind, up to spans, whatever the forms bind and wherever they fail.  The
application takes one more evaluation around those of the forms.  One such text has `begin` and
blanks in front of the text of the forms, and parens around it. -/
theorem eval_sequence_alike
    (hbegin : session.get? Builtin.sequence.name = some (.procedure (.builtin .sequence)))
    (hparse : Reader.parse source = .ok forms) (hne : forms ≠ []) (word span : Span) :
    (∀ block, IsForm block (.sequence forms word span) → ∀ depth,
      Option.Rel AlikeOutcome (session.eval depth source) (session.eval (depth + 1) block)) ∧
    ∀ gap, gap ≠ "" → Blank gap →
      IsForm ("(begin" ++ gap ++ source ++ ")") (.sequence forms word span) := by
  refine ⟨fun block hblock depth => rel_of_map_eq alikeOutcome_of_erase ?_,
    fun gap hgapne hgap => isForm_sequence hparse hgapne hgap word span⟩
  have hread := Reader.readAll_eq_none_iff.mpr (Reader.parse_eq_ok_iff.mp hparse)
  have hsource : session.eval depth source = session.evalRead depth none forms none := by
    rw [eval_eq_evalRead, Session.forms, fault?, hread]
  have hforms : session.evalRead depth none forms none =
      session.evalRead (depth + 1) none [.sequence forms word span] none := by
    rw [evalRead, evalForms_eq_evalForms_sequence hne hbegin, evalRead]
  rw [hsource, hforms, eval_of_isForm (depth + 1) hblock rfl]

/-- `(define begin 7)`, `begin` and `y`, in a text on its own. -/
def rebindBegin : List Node :=
  [.list [.symbol "define" ⟨1, 7⟩, .symbol "begin" ⟨8, 13⟩, .number 7 ⟨14, 15⟩] ⟨0, 16⟩,
    .symbol "begin" ⟨17, 22⟩, .symbol "y" ⟨23, 24⟩]

/-- A form binds `begin` to a number, and the last form fails.  The text and the application both
leave the number behind, and both fail at `y`. -/
theorem eval_sequence_rebound :
    Session.new.get? "begin" = some (.procedure (.builtin .sequence)) ∧
      Reader.parse "(define begin 7) begin y" = .ok rebindBegin ∧
      IsForm "(begin (define begin 7) begin y)" (.sequence rebindBegin ⟨1, 6⟩ ⟨0, 32⟩) ∧
      Session.new.eval 2 "(define begin 7) begin y" =
        some (.error (.eval ⟨.unboundName "y", ⟨23, 24⟩⟩),
          ⟨Session.new.store.set 0 "begin" (.number 7), 0⟩) ∧
      Option.Rel AlikeOutcome (Session.new.eval 2 "(define begin 7) begin y")
        (Session.new.eval 3 "(begin (define begin 7) begin y)") := by
  have hread : Reader.readAll (Token.tokenize "(define begin 7) begin y") =
      (rebindBegin, none) := by
    have hfirst : Reader.read (Token.tokenize "(define begin 7) begin y") =
        .ok (.list [.symbol "define" ⟨1, 7⟩, .symbol "begin" ⟨8, 13⟩, .number 7 ⟨14, 15⟩] ⟨0, 16⟩,
          [⟨.atom "begin", ⟨17, 22⟩⟩, ⟨.atom "y", ⟨23, 24⟩⟩]) := by rfl
    rw [Reader.readAll_of_read hfirst, Reader.readAll_of_read (by rfl),
      Reader.readAll_of_read (by rfl), Reader.readAll_nil]
    rfl
  have hparse : Reader.parse "(define begin 7) begin y" = .ok rebindBegin :=
    Reader.parse_eq_ok_iff.mpr (Reader.readAll_eq_none_iff.mp hread)
  have heval : Session.new.eval 2 "(define begin 7) begin y" =
      some (.error (.eval ⟨.unboundName "y", ⟨23, 24⟩⟩),
        ⟨Session.new.store.set 0 "begin" (.number 7), 0⟩) := by
    rw [eval_eq_evalRead, forms, fault?, hread]
    with_unfolding_all rfl
  have hbegin : Session.new.get? Builtin.sequence.name = some (.procedure (.builtin .sequence)) :=
    rfl
  obtain ⟨halike, hform⟩ := eval_sequence_alike hbegin hparse (by decide) ⟨1, 6⟩ ⟨0, 32⟩
  have hblock := hform " " (by decide) (by decide)
  exact ⟨rfl, hparse, hblock, heval, halike _ hblock 2⟩

end Session
end TinyLisp
