import Mathlib.Data.List.Forall2
import TinyLisp.Proofs.Attribution
import TinyLisp.Proofs.RoundTrip

/-!
# Layout has no meaning

Where the tokens of a text stand has no influence on what the text does.  `erase` puts one span
in the place of all others.  What a call gives and the session that it leaves behind are the same
up to spans if the session before and the nodes of the text are.

There are four groups.

* `erase` for values, stores, errors and sessions, and `Alike` for what is equal up to spans.
* `Session.evalRead`: a call after the reading of its text, and what erased spans do to it.
* Cuts: a text that is cut between two forms, and `eval_append`.
* Layouts: texts with the same tokens at other places, and `calls_of_sameTokens`.
-/

namespace TinyLisp

open Text (byteSize)
open Evaluation

/-! ## Without spans -/

/-- The value without regard to spans. -/
def Value.erase (value : Value) : Value :=
  value.respan fun _ => default

/-- The store without regard to spans. -/
def Store.erase (store : Store) : Store :=
  store.respan fun _ => default

/-- The fault of reading without regard to spans. -/
def ReadError.erase (error : ReadError) : ReadError :=
  error.respan fun _ => default

/-- The error without regard to spans. -/
def SourceError.erase (error : SourceError) : SourceError :=
  error.respan fun _ => default

/-- The result of a text without regard to spans. -/
def SourceResult.erase : SourceResult → SourceResult
  | .ok value => .ok (value.map Value.erase)
  | .error error => .error error.erase

/-- The session without regard to spans. -/
def Session.erase (session : Session) : Session :=
  { session with store := session.store.erase }

/-- What a call gives and the session after it, without regard to spans. -/
def Session.eraseOutcome (outcome : SourceResult × Session) : SourceResult × Session :=
  (outcome.1.erase, outcome.2.erase)

@[simp] theorem Node.erase_respan (g : Span → Span) (node : Node) :
    (node.respan g).erase = node.erase :=
  respan_respan

@[simp] theorem ReadError.erase_respan (g : Span → Span) (error : ReadError) :
    (error.respan g).erase = error.erase := by
  cases error <;> rfl

@[simp] theorem Value.render_erase (value : Value) : value.erase.render = value.render :=
  value.render_respan

@[simp] theorem SourceError.message_erase (error : SourceError) :
    error.erase.message = error.message := by
  rcases error with error | error | ⟨path, reason⟩
  · cases error <;> rfl
  · rfl
  · rfl

/-! ## The same up to spans -/

/-- Results that differ in spans only: the same value, no value at all, or errors of the same
kind.  They are shown in the same words. -/
inductive SourceResult.Alike : SourceResult → SourceResult → Prop where
  | nothing : Alike (.ok none) (.ok none)
  | value {v w : Value} (herase : v.erase = w.erase) (hrender : v.render = w.render) :
      Alike (.ok (some v)) (.ok (some w))
  | error {e f : SourceError} (herase : e.erase = f.erase) (hmessage : e.message = f.message) :
      Alike (.error e) (.error f)

/-- Sessions that differ in spans only: as many frames and closures were made, the frames enclose
each other alike, and they bind the same names to the same values, up to the spans in the bodies
of closures. -/
structure Session.Alike (a b : Session) : Prop where
  root : a.root = b.root
  size : a.store.frames.size = b.store.frames.size
  closures : a.store.closures = b.store.closures
  outer? : ∀ frame, a.store.outer? frame = b.store.outer? frame
  get? : ∀ frame name,
    (a.store.get? frame name).map Value.erase = (b.store.get? frame name).map Value.erase

/-- What two calls give and leave behind differs in spans only. -/
def Session.AlikeOutcome (first second : SourceResult × Session) : Prop :=
  first.1.Alike second.1 ∧ first.2.Alike second.2

theorem SourceResult.alike_of_erase {a b : SourceResult} (h : a.erase = b.erase) : a.Alike b := by
  match a, b with
  | .error e, .error f =>
    have herror : e.erase = f.erase := Except.error.inj h
    refine .error herror ?_
    rw [← SourceError.message_erase e, herror, SourceError.message_erase]
  | .ok none, .ok none => exact .nothing
  | .ok (some v), .ok (some w) =>
    have hvalue : v.erase = w.erase := Option.some.inj (Except.ok.inj h)
    refine .value hvalue ?_
    rw [← Value.render_erase v, hvalue, Value.render_erase]
  | .error _, .ok _ | .ok _, .error _ | .ok none, .ok (some _) | .ok (some _), .ok none => cases h

theorem Store.outer?_erase (store : Store) (frame : Nat) :
    store.erase.outer? frame = store.outer? frame := by
  rw [outer?, erase, getElem?_respan, Option.bind_map]
  rfl

theorem Session.alike_of_erase {a b : Session} (h : a.erase = b.erase) : a.Alike b := by
  obtain ⟨hstore, hroot⟩ := Session.mk.inj h
  refine ⟨hroot, ?_, (Store.mk.inj hstore).2, fun frame => ?_, fun frame name => ?_⟩
  · simpa [Store.erase, Store.respan] using congrArg (·.frames.size) hstore
  · rw [← Store.outer?_erase a.store, hstore, Store.outer?_erase]
  · have ha := a.store.get?_respan (g := fun _ => default) frame name
    have hb := b.store.get?_respan (g := fun _ => default) frame name
    calc (a.store.get? frame name).map Value.erase
      _ = a.store.erase.get? frame name := ha.symm
      _ = b.store.erase.get? frame name := by rw [hstore]
      _ = (b.store.get? frame name).map Value.erase := hb

theorem Session.alikeOutcome_of_erase {first second : SourceResult × Session}
    (h : eraseOutcome first = eraseOutcome second) : AlikeOutcome first second := by
  obtain ⟨hresult, hsession⟩ := Prod.mk.inj h
  exact ⟨SourceResult.alike_of_erase hresult, alike_of_erase hsession⟩

/-- Two options that are the same under a map are both empty, or their contents are related. -/
theorem rel_of_map_eq {α β : Type} {f : α → β} {R : α → α → Prop}
    (hR : ∀ {a b}, f a = f b → R a b) {first second : Option α}
    (h : first.map f = second.map f) : Option.Rel R first second := by
  match first, second with
  | none, none => exact .none
  | none, some _ | some _, none => cases h
  | some a, some b => exact .some (hR (Option.some.inj h))

/-! ## Calls after reading -/

namespace Session

variable {depth : Nat} {session a b : Session}

/-- What a text gives if it is read as these forms, with this fault behind them.  Without any
form the value is `last`. -/
def evalRead (depth : Nat) (session : Session) (last : Option Value) (forms : List Node)
    (fault : Option ReadError) : Option (SourceResult × Session) :=
  (evalForms depth session.root last forms session.store).map fun (answer, store) =>
    (sourceResult answer fault, { session with store })

theorem eval_eq_evalRead (depth : Nat) (session : Session) (text : String) :
    session.eval depth text = session.evalRead depth none (forms text) (fault? text) := by
  simp only [eval, evalSource, evalRead, forms, fault?]
  generalize Reader.readAll (Token.tokenize text) = read
  obtain ⟨nodes, fault⟩ := read
  rcases evalForms depth session.root none nodes session.store with _ | ⟨_ | value, store⟩
  · rfl
  · rfl
  · cases fault <;> rfl

/-- Nodes and a session without spans give what the nodes give in the session, without spans. -/
theorem evalRead_erase (depth : Nat) (session : Session) (last : Option Value)
    (forms : List Node) (fault : Option ReadError) :
    session.erase.evalRead depth (last.map Value.erase) (forms.map Node.erase)
        (fault.map ReadError.erase) =
      (session.evalRead depth last forms fault).map eraseOutcome := by
  have hforms := evalForms_respan (g := fun _ => default) depth session.root last forms
    session.store
  have herase : evalForms depth session.root (last.map Value.erase) (forms.map Node.erase)
      session.store.erase = _ := hforms
  simp only [evalRead, erase, herase, Option.map_map]
  congr 1
  funext ⟨answer, store⟩
  cases answer with
  | error error => rfl
  | ok value => cases fault <;> rfl

/-- Sessions and nodes that differ in spans only give results that differ in spans only. -/
theorem evalRead_congr (h : a.erase = b.erase) {last other : Option Value}
    (hlast : last.map Value.erase = other.map Value.erase) {forms others : List Node}
    (hforms : forms.map Node.erase = others.map Node.erase) {fault stuck : Option ReadError}
    (hfault : fault.map ReadError.erase = stuck.map ReadError.erase) :
    (a.evalRead depth last forms fault).map eraseOutcome =
      (b.evalRead depth other others stuck).map eraseOutcome := by
  rw [← evalRead_erase, ← evalRead_erase, h, hlast, hforms, hfault]

/-! ## Cuts -/

/-- Forms in a row: the later ones begin with the value of the earlier ones. -/
theorem evalForms_append (depth frame : Nat) (last : Option Value) (forms more : List Node) :
    evalForms depth frame last (forms ++ more) =
      evalForms depth frame last forms >>= fun value => evalForms depth frame value more := by
  induction forms generalizing last with
  | nil => simp [evalForms]
  | cons form rest ih =>
    simp only [List.cons_append, evalForms, bind_assoc]
    exact congrArg _ (funext fun value => ih (some value))

/-- Forms in a row: if the earlier ones end well, the later ones go on where those ended. -/
theorem evalRead_append (depth : Nat) (session : Session) (last : Option Value)
    (forms more : List Node) (fault : Option ReadError) :
    session.evalRead depth last (forms ++ more) fault =
      match session.evalRead depth last forms none with
      | none => none
      | some (.error error, after) => some (.error error, after)
      | some (.ok value, between) => between.evalRead depth value more fault := by
  simp only [evalRead, evalForms_append, bind_apply]
  rcases evalForms depth session.root last forms session.store with _ | ⟨_ | value, between⟩ <;>
    rfl

/-- The value that forms begin with matters only if there is no form. -/
theorem evalForms_or (depth frame : Nat) (last fallback : Option Value) (forms : List Node)
    (store : Store) :
    evalForms depth frame (last.or fallback) forms store =
      (evalForms depth frame last forms store).map fun (answer, after) =>
        (answer.map (·.or fallback), after) := by
  induction forms generalizing last store with
  | nil => rfl
  | cons form rest ih =>
    simp only [evalForms, bind_apply]
    rcases TinyLisp.eval depth frame form store with _ | ⟨_ | value, between⟩
    · rfl
    · rfl
    · exact ih (some value) between

/-- The result, with another value in the place of none. -/
def orValue (fallback : Option Value) (outcome : SourceResult × Session) :
    SourceResult × Session :=
  (outcome.1.map (·.or fallback), outcome.2)

theorem evalRead_or (depth : Nat) (session : Session) (fallback : Option Value)
    (forms : List Node) (fault : Option ReadError) :
    session.evalRead depth fallback forms fault =
      (session.evalRead depth none forms fault).map (orValue fallback) := by
  have hforms := evalForms_or depth session.root none fallback forms session.store
  rw [Option.none_or] at hforms
  simp only [evalRead, hforms, Option.map_map]
  congr 1
  funext ⟨answer, store⟩
  cases answer with
  | error error => rfl
  | ok value => cases fault <;> rfl

variable {front gap back : String}

/-- Blanks between two texts keep their tokens apart. -/
theorem tokenize_append_gap (hne : gap ≠ "") (hgap : Blank gap) (front back : String) :
    Token.tokenize (front ++ gap ++ back) = Token.tokenize front ++
      (Token.tokenize back).map
        (Token.respan (Span.shift (byteSize front.toList + byteSize gap.toList))) := by
  have hback := (lexes_tokenize back).shift (byteSize front.toList + byteSize gap.toList)
  rw [Nat.zero_add] at hback
  have hend := endsWord_blanks_append hne hgap back.toList
  have hlexes := (lexes_tokenize front).append hend
    (.blanks_append hgap (by rwa [Nat.zero_add]))
  rw [Token.tokenize, String.toList_append, String.toList_append, List.append_assoc]
  exact hlexes.scan_eq

/-- What is read from a text that is cut behind a front without a fault. -/
theorem readAll_append_gap {nodes : List Node} (hparse : Reader.parse front = .ok nodes)
    (hne : gap ≠ "") (hgap : Blank gap) (back : String) :
    ∃ g, forms (front ++ gap ++ back) = forms front ++ (forms back).map (Node.respan g) ∧
      fault? (front ++ gap ++ back) = (fault? back).map (ReadError.respan g) := by
  have hspells := Reader.parse_eq_ok_iff.mp hparse
  have hfront : Reader.readAll (Token.tokenize front) = (nodes, none) :=
    Reader.readAll_eq_none_iff.mpr hspells
  refine ⟨Span.shift (byteSize front.toList + byteSize gap.toList), ?_, ?_⟩
  · rw [forms, tokenize_append_gap hne hgap, hspells.readAll_append,
      Reader.readAll_respan (Span.shift_merge _), forms, hfront, forms]
  · rw [fault?, tokenize_append_gap hne hgap, hspells.readAll_append,
      Reader.readAll_respan (Span.shift_merge _), fault?]

/-- The text is read as one form, which is the given one up to spans. -/
def IsForm (text : String) (form : Node) : Prop :=
  ∃ again, Reader.parse text = .ok [again] ∧ again.erase = form.erase

/-- What is written for a node is that form. -/
theorem isForm_of_writes {text : String} {form : Node} (h : Writes [form] text.toList) :
    IsForm text form := by
  obtain ⟨tokens, again, hlexes, hspells, herase⟩ := h 0
  obtain ⟨only, rfl, honly⟩ := List.map_eq_singleton_iff.mp herase
  have htokens : Token.tokenize text = tokens := hlexes.scan_eq
  exact ⟨only, Reader.parse_eq_ok_iff.mpr (htokens ▸ hspells), honly⟩

/-- Evaluates texts one after the other, up to the first that fails. -/
def inTurn (depth : Nat) (session : Session) : List String → Option Session
  | [] => some session
  | text :: rest =>
    match session.eval depth text with
    | none => none
    | some (.error _, after) => some after
    | some (.ok _, after) => after.inTurn depth rest

/-- A text that is one form gives what that form gives. -/
theorem eval_of_isForm (depth : Nat) {text : String} {form : Node} (htext : IsForm text form)
    (h : a.erase = b.erase) :
    (b.eval depth text).map eraseOutcome =
      (a.evalRead depth none [form] none).map eraseOutcome := by
  obtain ⟨again, hparse, hagain⟩ := htext
  have hread := Reader.readAll_eq_none_iff.mpr (Reader.parse_eq_ok_iff.mp hparse)
  rw [eval_eq_evalRead, forms, fault?, hread]
  exact (evalRead_congr h rfl (by simp [hagain]) rfl).symm

/-- Forms evaluated in a row leave the session behind that they leave behind when each one is
evaluated alone. -/
theorem map_evalRead_eq_inTurn {pieces : List String} {forms : List Node}
    (hpieces : List.Forall₂ IsForm pieces forms) (h : a.erase = b.erase) (last : Option Value)
    (fault : Option ReadError) :
    ((a.evalRead depth last forms fault).map eraseOutcome).map Prod.snd =
      (b.inTurn depth pieces).map erase := by
  induction hpieces generalizing a b last with
  | nil => exact congrArg some h
  | @cons text form pieces forms htext _ ih =>
    have hone := eval_of_isForm depth htext h
    have hsplit : a.evalRead depth last (form :: forms) fault = _ :=
      a.evalRead_append depth last [form] forms fault
    have hlast : a.evalRead depth last [form] none = a.evalRead depth none [form] none := rfl
    rw [hsplit, hlast, inTurn]
    match b.eval depth text, a.evalRead depth none [form] none, hone with
    | none, none, _ => rfl
    | some (.error _, after), some (.error _, between), hone =>
      exact congrArg (Option.map Prod.snd) hone.symm
    | some (.ok _, after), some (.ok value, between), hone =>
      have hafter : after.erase = between.erase := (Prod.mk.inj (Option.some.inj hone)).2
      exact ih hafter.symm value

/-- A text can be cut behind any form.  If the front fails, then the whole text fails in the same
way.  Otherwise the whole text gives what the back gives in the session that the front leaves
behind, and what the front gives if there is no form in the back.  In each case, and even if the
back ends in a fault, every form has had the effect that it has alone. -/
theorem eval_append {nodes : List Node} (hparse : Reader.parse front = .ok nodes)
    (hne : gap ≠ "") (hgap : Blank gap) (back : String) (depth : Nat) (session : Session) :
    (∀ error after, session.eval depth front = some (.error error, after) →
      session.eval depth (front ++ gap ++ back) = some (.error error, after)) ∧
    (∀ value between, session.eval depth front = some (.ok value, between) →
      Option.Rel AlikeOutcome (session.eval depth (front ++ gap ++ back))
        ((between.eval depth back).map (orValue value))) ∧
    ∀ pieces, List.Forall₂ IsForm pieces (forms front ++ forms back) →
      Option.Rel Session.Alike ((session.eval depth (front ++ gap ++ back)).map Prod.snd)
        (session.inTurn depth pieces) := by
  obtain ⟨g, hforms, hfault⟩ := readAll_append_gap hparse hne hgap back
  have hfront : session.eval depth front = session.evalRead depth none (forms front) none := by
    have hnone : fault? front = none := by
      rw [fault?, Reader.readAll_eq_none_iff.mpr (Reader.parse_eq_ok_iff.mp hparse)]
    rw [eval_eq_evalRead, hnone]
  have hwhole : session.eval depth (front ++ gap ++ back) =
      session.evalRead depth none (forms front ++ (forms back).map (Node.respan g))
        ((fault? back).map (ReadError.respan g)) := by
    rw [eval_eq_evalRead, hforms, hfault]
  have hnodes : ((forms back).map (Node.respan g)).map Node.erase =
      (forms back).map Node.erase := by
    simp [Function.comp_def]
  have hstuck : ((fault? back).map (ReadError.respan g)).map ReadError.erase =
      (fault? back).map ReadError.erase := by
    simp [Function.comp_def]
  refine ⟨fun error after herror => ?_, fun value between hvalue => ?_, fun pieces hpieces => ?_⟩
  · rw [hwhole, evalRead_append, ← hfront, herror]
  · rw [hwhole, evalRead_append, ← hfront, hvalue]
    refine rel_of_map_eq alikeOutcome_of_erase ?_
    rw [eval_eq_evalRead, ← evalRead_or]
    exact evalRead_congr rfl rfl hnodes hstuck
  · refine rel_of_map_eq alike_of_erase ?_
    have hall : (session.eval depth (front ++ gap ++ back)).map eraseOutcome =
        (session.evalRead depth none (forms front ++ forms back) (fault? back)).map
          eraseOutcome := by
      rw [hwhole]
      exact evalRead_congr rfl rfl (by rw [List.map_append, List.map_append, hnodes]) hstuck
    rw [← map_evalRead_eq_inTurn hpieces rfl none (fault? back), ← hall, Option.map_map,
      Option.map_map]
    rfl

/-- `(define x 1)` -/
def defineX : Node :=
  .list [.symbol "define" ⟨1, 7⟩, .symbol "x" ⟨8, 9⟩, .number 1 ⟨10, 11⟩] ⟨0, 12⟩

/-- A new session after `(define x 1)`. -/
def definedX : Session where
  store := Session.new.store.set 0 "x" (.number 1)
  root := 0

/-- In `(define x 1)` and `x)` in two lines, the paren takes nothing back.  An `x` in front of
them is unbound, and nothing is done. -/
theorem eval_append_stray :
    (Session.new.eval 2 "(define x 1)" = some (.ok (some (.number 1)), definedX) ∧
      Option.Rel AlikeOutcome (Session.new.eval 2 ("(define x 1)" ++ "\n" ++ "x)"))
        ((definedX.eval 2 "x)").map (orValue (some (.number 1)))) ∧
      Option.Rel Session.Alike
        ((Session.new.eval 2 ("(define x 1)" ++ "\n" ++ "x)")).map Prod.snd)
        (Session.new.inTurn 2 ["(define x 1)", "x"])) ∧
    Session.new.eval 2 ("x" ++ " " ++ "(define x 1) x)") =
      some (.error (.eval ⟨.unboundName "x", ⟨0, 1⟩⟩), Session.new) := by
  have hread : Reader.read (Token.tokenize "(define x 1)") = .ok (defineX, []) := by rfl
  have hx : Reader.read (Token.tokenize "x") = .ok (.symbol "x" ⟨0, 1⟩, []) := by rfl
  have hback : Reader.read (Token.tokenize "x)") =
      .ok (.symbol "x" ⟨0, 1⟩, [⟨.closing, ⟨1, 2⟩⟩]) := by
    rfl
  have hforms : forms "(define x 1)" ++ forms "x)" = [defineX, .symbol "x" ⟨0, 1⟩] := by
    rw [forms, forms, Reader.readAll_of_read hread, Reader.readAll_nil,
      Reader.readAll_of_read hback, Reader.readAll_of_read_error (by simp) rfl]
    rfl
  have hparse : Reader.parse "(define x 1)" = .ok [defineX] := by
    rw [Reader.parse, Reader.readAll_of_read hread, Reader.readAll_nil]
  have hparsex : Reader.parse "x" = .ok [.symbol "x" ⟨0, 1⟩] := by
    rw [Reader.parse, Reader.readAll_of_read hx, Reader.readAll_nil]
  have hdefine : Session.new.eval 2 "(define x 1)" = some (.ok (some (.number 1)), definedX) :=
    eval_of_read defineX (.ok (.number 1)) hread (by with_unfolding_all rfl)
  have hunbound : Session.new.eval 2 "x" =
      some (.error (.eval ⟨.unboundName "x", ⟨0, 1⟩⟩), Session.new) :=
    eval_of_read (.symbol "x" ⟨0, 1⟩) (.error ⟨.unboundName "x", ⟨0, 1⟩⟩) hx
      (by with_unfolding_all rfl)
  have hpieces :
      List.Forall₂ IsForm ["(define x 1)", "x"] (forms "(define x 1)" ++ forms "x)") := by
    rw [hforms]
    exact .cons ⟨_, hparse, rfl⟩ (.cons ⟨_, hparsex, rfl⟩ .nil)
  obtain ⟨-, hgoes, hall⟩ :=
    eval_append hparse (by decide : "\n" ≠ "") (by decide) "x)" 2 Session.new
  obtain ⟨hfails, -, -⟩ :=
    eval_append hparsex (by decide : " " ≠ "") (by decide) "(define x 1) x)" 2 Session.new
  exact ⟨⟨hdefine, hgoes _ _ hdefine, hall _ hpieces⟩, hfails _ _ hunbound⟩

/-! ## Layouts -/

/-- The texts have the same tokens, perhaps at other places. -/
def SameTokens (text other : String) : Prop :=
  (Token.tokenize text).map Token.kind = (Token.tokenize other).map Token.kind

instance (text other : String) : Decidable (SameTokens text other) :=
  inferInstanceAs (Decidable ((Token.tokenize text).map Token.kind = _))

/-- What texts give, evaluated one after the other, with the session after each of them, up to
the first one that does not come to an end. -/
def calls (depth : Nat) (session : Session) : List String → List (SourceResult × Session)
  | [] => []
  | text :: rest =>
    match session.eval depth text with
    | none => []
    | some (result, after) => (result, after) :: after.calls depth rest

/-- The nodes of a text up to spans come from its tokens. -/
theorem readAll_erase (text : String) :
    ((forms text).map Node.erase, (fault? text).map ReadError.erase) =
      Reader.readAll (((Token.tokenize text).map Token.kind).map fun kind => ⟨kind, default⟩) := by
  have hread := Reader.readAll_respan (g := fun _ => default) (fun _ _ => (Span.merge_self _).symm)
    (Token.tokenize text)
  rw [List.map_map]
  exact hread.symm

/-- The outcome of a text up to spans is that of any text with the same tokens. -/
theorem eval_erase_congr (depth : Nat) {text other : String} (htext : SameTokens text other)
    (h : a.erase = b.erase) :
    (a.eval depth text).map eraseOutcome = (b.eval depth other).map eraseOutcome := by
  have hread := readAll_erase text
  rw [htext, ← readAll_erase other] at hread
  obtain ⟨hforms, hfault⟩ := Prod.mk.inj hread
  rw [eval_eq_evalRead, eval_eq_evalRead]
  exact evalRead_congr h rfl hforms hfault

theorem calls_erase_congr (depth : Nat) {texts others : List String}
    (htexts : List.Forall₂ SameTokens texts others) (h : a.erase = b.erase) :
    (a.calls depth texts).map eraseOutcome = (b.calls depth others).map eraseOutcome := by
  induction htexts generalizing a b with
  | nil => rfl
  | @cons text other texts others htext _ ih =>
    have hone := eval_erase_congr depth htext h
    rw [calls, calls]
    match a.eval depth text, b.eval depth other, hone with
    | none, none, _ => rfl
    | some (result, after), some (answer, later), hone =>
      have hboth : eraseOutcome (result, after) = eraseOutcome (answer, later) :=
        Option.some.inj hone
      rw [List.map_cons, List.map_cons, hboth, ih (Prod.mk.inj hboth).2]

/-- Layout never changes what texts give.  If the texts in two sequences have the same tokens in
pairs, then evaluating them in two new sessions gives the same up to spans at each step. -/
theorem calls_of_sameTokens {texts others : List String}
    (h : List.Forall₂ SameTokens texts others) (depth : Nat) :
    List.Forall₂ AlikeOutcome (Session.new.calls depth texts) (Session.new.calls depth others) := by
  have hcalls := calls_erase_congr depth h (rfl : Session.new.erase = Session.new.erase)
  rw [← List.forall₂_eq_eq_eq, List.forall₂_map_left_iff, List.forall₂_map_right_iff] at hcalls
  exact hcalls.imp fun _ _ => alikeOutcome_of_erase

/-- The same forms in two layouts: a closure is made, and its call fails in its body. -/
theorem calls_in_two_layouts :
    List.Forall₂ SameTokens ["(define f (lambda () y))", "(f)"]
        ["(define f  (lambda () y))", " ( f )"] ∧
      List.Forall₂ AlikeOutcome
        (Session.new.calls 3 ["(define f (lambda () y))", "(f)"])
        (Session.new.calls 3 ["(define f  (lambda () y))", " ( f )"]) := by
  have hsame : List.Forall₂ SameTokens ["(define f (lambda () y))", "(f)"]
      ["(define f  (lambda () y))", " ( f )"] :=
    .cons (by decide) (.cons (by decide) .nil)
  exact ⟨hsame, calls_of_sameTokens hsame 3⟩

end Session
end TinyLisp
