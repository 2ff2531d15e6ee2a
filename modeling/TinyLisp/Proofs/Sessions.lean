import TinyLisp.Proofs.Adequacy
import TinyLisp.Proofs.Grammar
import TinyLisp.Session

/-!
# Sessions that can be reached

A session is reached by texts if evaluating them one after the other in a new session leaves
it behind.  Each text may have ended with a value or with an error.

* `evalForms_keeps`: what the forms of a text keep of the store, and which form failed.
* `Session.eval_eq_some_iff`: one call, as the evaluation of the forms that can be read.
* `Session.Reached.hosts`: the store of a session that can be reached is well formed.
-/

namespace TinyLisp

open Evaluation

/-- The store is well formed and has the frame. -/
structure Store.Hosts (store : Store) (frame : Nat) : Prop where
  wellFormed : store.WellFormed
  lt_size : frame < store.frames.size

theorem Store.Hosts.derives {store after : Store} {frame : Nat} {node : Node}
    {result : Except EvalError Value} (h : store.Hosts frame)
    (hderives : Derives store (.node frame node) result after) : after.Hosts frame where
  wellFormed := (hderives.wellFormed h.wellFormed h.lt_size).1
  lt_size := Nat.lt_of_lt_of_le h.lt_size hderives.size_le

/-! ## Forms -/

section Forms

variable {P : Store → Prop} {depth frame : Nat} {forms : List Node} {last : Option Value}
  {store after : Store} {result : Except EvalError (Option Value)}

/-- Evaluating forms keeps what evaluating each one of them keeps, and forms fail with the error
of one of them. -/
theorem evalForms_keeps
    (hform : ∀ form ∈ forms, ∀ store result after, P store →
      Derives store (.node frame form) result after → P after)
    (hosts : store.Hosts frame) (hstore : P store)
    (h : evalForms depth frame last forms store = some (result, after)) :
    (after.Hosts frame ∧ P after) ∧ ∀ error, result = .error error →
      ∃ form ∈ forms, ∃ between, P between ∧
        Derives between (.node frame form) (.error error) after := by
  induction forms generalizing last store with
  | nil =>
    cases h
    exact ⟨⟨hosts, hstore⟩, by simp⟩
  | cons form rest ih =>
    have hmem : form ∈ form :: rest := List.mem_cons_self
    rcases bind_eq_some_iff.mp h with ⟨error, hfirst, hresult⟩ | ⟨value, between, hfirst, hrest⟩
    · have hderives := eval_sound depth hosts.wellFormed hosts.lt_size hfirst
      refine ⟨⟨hosts.derives hderives, hform form hmem _ _ _ hstore hderives⟩, ?_⟩
      rintro other hother
      cases hresult.symm.trans hother
      exact ⟨form, hmem, store, hstore, hderives⟩
    · have hderives := eval_sound depth hosts.wellFormed hosts.lt_size hfirst
      have hbetween := hform form hmem _ _ _ hstore hderives
      obtain ⟨hafter, hfails⟩ := ih (fun later hlater => hform later (List.mem_cons_of_mem _ hlater))
        (hosts.derives hderives) hbetween hrest
      refine ⟨hafter, fun error herror => ?_⟩
      obtain ⟨failing, hfailing, hblames⟩ := hfails error herror
      exact ⟨failing, List.mem_cons_of_mem _ hfailing, hblames⟩

end Forms

/-! ## Calls -/

/-- What a text gives if this is the answer of its forms and the fault behind them. -/
def sourceResult : Except EvalError (Option Value) → Option ReadError → SourceResult
  | .error error, _ => .error (.eval error)
  | .ok _, some error => .error (.read error)
  | .ok value, none => .ok value

/-- A text fails with the error of a form, or with its first fault if all forms in front of
that fault succeed. -/
theorem sourceResult_eq_error {answer : Except EvalError (Option Value)}
    {fault : Option ReadError} {error : SourceError}
    (h : sourceResult answer fault = .error error) :
    (∃ blamed, answer = .error blamed ∧ error = .eval blamed) ∨
      ∃ value stuck, answer = .ok value ∧ fault = some stuck ∧ error = .read stuck := by
  cases answer with
  | error blamed =>
    cases h
    exact .inl ⟨blamed, rfl, rfl⟩
  | ok value =>
    cases fault with
    | none => cases h
    | some stuck =>
      cases h
      exact .inr ⟨value, stuck, rfl, rfl, rfl⟩

/-- The value of a text is that of its last form. -/
theorem sourceResult_eq_ok {answer : Except EvalError (Option Value)} {fault : Option ReadError}
    {value : Option Value} (h : sourceResult answer fault = .ok value) : answer = .ok value := by
  match answer, fault, h with
  | .ok _, none, h =>
    cases h
    rfl

namespace Session

/-- The forms of a text in front of its first fault. -/
def forms (text : String) : List Node :=
  (Reader.readAll (Token.tokenize text)).1

/-- The first fault in the reading of a text. -/
def fault? (text : String) : Option ReadError :=
  (Reader.readAll (Token.tokenize text)).2

/-- The sessions that the texts, evaluated one after the other in a new session, leave
behind. -/
inductive Reached : List String → Session → Prop where
  | new : Reached [] Session.new
  | eval {texts session depth text result after} (h : Reached texts session)
      (heval : Session.eval depth session text = some (result, after)) :
      Reached (texts ++ [text]) after

variable {depth : Nat} {session after : Session} {text : String} {texts : List String}
  {result : SourceResult}

/-- A call evaluates the forms in front of the first fault of the text. -/
theorem eval_eq_some_iff :
    session.eval depth text = some (result, after) ↔
      ∃ answer store, evalForms depth session.root none (forms text) session.store =
          some (answer, store) ∧
        result = sourceResult answer (fault? text) ∧ after = { session with store } := by
  simp only [eval, evalSource, forms, fault?]
  generalize Reader.readAll (Token.tokenize text) = read
  obtain ⟨nodes, fault⟩ := read
  rcases evalForms depth session.root none nodes session.store with _ | ⟨_ | value, store⟩
  · simp
  · simp [sourceResult, eq_comm]
  · cases fault <;> simp [sourceResult, eq_comm]

/-- A text of one form gives what the form gives. -/
theorem eval_of_read (form : Node) (answer : Except EvalError Value) {store : Store}
    (hread : Reader.read (Token.tokenize text) = .ok (form, []))
    (heval : TinyLisp.eval depth session.root form session.store = some (answer, store)) :
    session.eval depth text =
      some (sourceResult (answer.map some) none, { session with store }) := by
  refine eval_eq_some_iff.mpr ⟨answer.map some, store, ?_, ?_, rfl⟩
  · have hforms : forms text = [form] := by
      rw [forms, Reader.readAll_of_read hread, Reader.readAll_nil]
    rw [hforms, evalForms, bind_apply, heval]
    cases answer <;> rfl
  · rw [fault?, Reader.readAll_of_read hread, Reader.readAll_nil]

theorem hosts_new : Session.new.store.Hosts Session.new.root where
  wellFormed := Store.WellFormed.empty.addGlobal
  lt_size := by decide

/-- A session that can be reached has a well-formed store with the global frame in it. -/
theorem Reached.hosts (h : Reached texts session) : session.store.Hosts session.root := by
  induction h with
  | new => exact hosts_new
  | eval _ heval ih =>
    obtain ⟨answer, store, hforms, -, rfl⟩ := eval_eq_some_iff.mp heval
    exact (evalForms_keeps (P := fun _ => True) (fun _ _ _ _ _ _ _ => trivial) ih trivial hforms).1.1

end Session

end TinyLisp
