import TinyLisp.Proofs.Locations
import TinyLisp.Proofs.Readback
import TinyLisp.Proofs.Sequencing
import TinyLisp.Script.Run

/-!
# Runs of scripts

A run evaluates its sources one after the other in one session and stops at the first that fails.

* `Session.Reached.notMem_render`: the text of a value takes one line.
* `Script.Passes` is a relation beside the loop: sources that are evaluated without an error, their
  values, and the session behind them.
* `Script.runSource_eq`: what one source does to the console, read off what the session gives.
* `Script.Passes.run_append` and `Script.exists_passes`: a run goes through the sources that pass,
  and then is at its end or fails.
* `Script.output_written` and `Script.errors_written`: what is on the console behind the sources
  that pass.
* `Script.run_stops_at_first_failure`: the status and the two streams, and that nothing behind the
  failure counts.
-/

namespace TinyLisp

/-! ## Values on one line -/

open Report

theorem Node.Named.notMem_render {node : Node} (h : node.Named) : '\n' ∉ node.render.toList := by
  induction node with
  | number value span => exact notMem_of_isWord (Number.isWord_render value)
  | symbol name span => exact notMem_of_isWord (h name span .self).word
  | list children span ih =>
    have hchildren : '\n' ∉ (String.intercalate " " (children.map render)).toList := by
      refine notMem_intercalate fun word hword => ?_
      obtain ⟨child, hmem, rfl⟩ := List.mem_map.mp hword
      exact ih child hmem fun name place hpart => h name place (.child hmem hpart)
    rw [render, renderAll_eq_intercalate]
    exact notMem_append (notMem_append (by decide) hchildren) (by decide)

/-- The value that a session gives for a text takes one line. -/
theorem Session.Reached.notMem_render {texts : List String} {session after : Session} {depth : Nat}
    {text : String} {value : Value} (h : Reached texts session)
    (heval : session.eval depth text = some (.ok (some value), after)) :
    '\n' ∉ value.render.toList := by
  match value with
  | .number x => exact notMem_of_isWord (Number.isWord_render x)
  | .procedure (.builtin builtin) =>
    exact notMem_append (notMem_append (by decide) (notMem_name builtin)) (by decide)
  | .procedure (.closure closure) =>
    have hnamed := h.named_of_gives (.inr ⟨depth, text, after, heval⟩)
    have hform := hnamed.form.notMem_render
    rwa [closure.render_form] at hform

/-- A text without a fault gives a value if it has a form. -/
theorem Session.isSome_iff_forms_ne_nil {session after : Session} {depth : Nat} {text : String}
    {value : Option Value} (heval : session.eval depth text = some (.ok value, after)) :
    value.isSome ↔ forms text ≠ [] := by
  obtain ⟨answer, store, hforms, hresult, -⟩ := eval_eq_some_iff.mp heval
  cases sourceResult_eq_ok hresult.symm
  by_cases hne : forms text = []
  · rw [hne] at hforms
    cases hforms
    simp [hne]
  · rw [evalForms_eq_each depth session.root hne] at hforms
    rcases Evaluation.bind_eq_some_iff.mp hforms with ⟨_, -, hfailed⟩ | ⟨values, _, -, hlast⟩
    · cases hfailed
    · cases hlast
      simp [hne]

namespace Script

/-! ## Sources -/

/-- The text of a source.  Of what cannot be had, it is empty. -/
def Source.text (source : Source) : String :=
  source.contents.toOption.getD ""

/-- A file among the sources. -/
def Source.ofFile (print : Bool) (file : String → Except String String) (path : String) : Source :=
  ⟨.file path, file path, print⟩

/-- A value on a line, and nothing if there is no value. -/
def lineOf : Option Value → String
  | some value => value.render ++ "\n"
  | none => ""

/-- What the runner writes for a source with this value.  The value of a file is shown only if that
is asked for. -/
def Source.line (print : Bool) (source : Source) (value : Option Value) : String :=
  match source.origin with
  | .file _ => if print then lineOf value else ""
  | .expression | .input => lineOf value

/-- Evaluated one after the other in the first session, the sources give the values and leave the
last session behind. -/
inductive Passes (depth : Nat) : Session → List Source → List (Option Value) → Session → Prop where
  | nil {session} : Passes depth session [] [] session
  | cons {session between after source rest value values}
      (hload : session.load depth source.origin.name source.contents = some (.ok value, between))
      (hrest : Passes depth between rest values after) :
      Passes depth session (source :: rest) (value :: values) after

/-! ## One source -/

/-- The console behind a source that gives a value. -/
def written (console : Console) (source : Source) (value : Option Value) : Console :=
  let console := (announce source.origin console).note (.ofText source.text)
  if source.shows then console.showValue value else console

/-- The console behind a source that fails. -/
def blamed (console : Console) (source : Source) (error : SourceError) : Console :=
  (announce source.origin console).complain (error.report source.origin.name source.text)

/-- What the session gives for a source decides what the runner does. -/
theorem runSource_eq (depth : Nat) (session : Session) (console : Console) (source : Source) :
    runSource depth session console source =
      (session.load depth source.origin.name source.contents).map fun (result, after) =>
        match result with
        | .ok value => (.success, after, written console source value)
        | .error error => (.failure, after, blamed console source error) := by
  obtain ⟨origin, contents, shows⟩ := source
  cases contents with
  | error reason => rfl
  | ok text =>
    simp only [runSource, Session.load, Session.evalLogged, Option.map_map]
    rcases session.eval depth text with _ | ⟨_ | value, after⟩ <;> rfl

/-! ## Runs -/

section Runs

variable {depth : Nat} {session between after : Session} {source : Source}
  {front : List Source} {value : Option Value} {values : List (Option Value)} {error : SourceError}

/-- The console behind sources that give values. -/
def writtenAll (console : Console) (sources : List Source) (values : List (Option Value)) :
    Console :=
  (sources.zip values).foldl (fun console pair => written console pair.1 pair.2) console

theorem run_cons_of_value (console : Console) (rest : List Source)
    (hload : session.load depth source.origin.name source.contents = some (.ok value, between)) :
    run depth session console (source :: rest) =
      run depth between (written console source value) rest := by
  rw [run, runSource_eq, hload]
  rfl

/-- A source that fails ends the run, whatever is behind it. -/
theorem run_cons_of_error (console : Console) (rest : List Source)
    (hload : session.load depth source.origin.name source.contents = some (.error error, after)) :
    run depth session console (source :: rest) = some (.failure, blamed console source error) := by
  rw [run, runSource_eq, hload]
  rfl

/-- A run goes on behind the sources that pass. -/
theorem Passes.run_append (h : Passes depth session front values between) (console : Console)
    (rest : List Source) :
    run depth session console (front ++ rest) =
      run depth between (writtenAll console front values) rest := by
  induction h generalizing console with
  | nil => rfl
  | cons hload _ ih =>
    rw [List.cons_append, run_cons_of_value console _ hload]
    exact ih (written console _ _)

/-- A run that ends has gone through sources that pass, up to the end or to a source that fails. -/
theorem exists_passes {sources : List Source} {console final : Console} {status : Status}
    (hrun : run depth session console sources = some (status, final)) :
    ∃ passed rest values between, sources = passed ++ rest ∧
      Passes depth session passed values between ∧
      ((rest = [] ∧ status = .success ∧ final = writtenAll console passed values) ∨
        ∃ source later error after, rest = source :: later ∧
          between.load depth source.origin.name source.contents = some (.error error, after) ∧
          status = .failure ∧ final = blamed (writtenAll console passed values) source error) := by
  -- The first source has no answer, or it ends the run, or the others run from where it ends.
  induction sources generalizing session console with
  | nil =>
    cases hrun
    exact ⟨[], [], [], session, rfl, .nil, .inl ⟨rfl, rfl, rfl⟩⟩
  | cons source later ih =>
    cases hload : session.load depth source.origin.name source.contents with
    | none =>
      rw [run, runSource_eq, hload] at hrun
      cases hrun
    | some answer =>
      obtain ⟨result, next⟩ := answer
      cases result with
      | error error =>
        rw [run_cons_of_error console later hload] at hrun
        cases hrun
        exact ⟨[], source :: later, [], session, rfl, .nil,
          .inr ⟨source, later, error, next, rfl, hload, rfl, rfl⟩⟩
      | ok value =>
        rw [run_cons_of_value console later hload] at hrun
        obtain ⟨passed, rest, values, between, hsources, hpasses, hends⟩ := ih hrun
        exact ⟨source :: passed, rest, value :: values, between, congrArg (source :: ·) hsources,
          .cons hload hpasses, hends⟩

/-- The exit code is zero if every source passes, and not otherwise. -/
theorem code_eq_zero_iff {sources : List Source} {console final : Console} {status : Status}
    (hrun : run depth session console sources = some (status, final)) :
    status.code = 0 ↔ ∃ values after, Passes depth session sources values after := by
  constructor
  · intro hzero
    obtain ⟨passed, rest, values, between, rfl, hpasses, hends⟩ := exists_passes hrun
    rcases hends with ⟨rfl, -, -⟩ | ⟨_, _, _, _, -, -, rfl, -⟩
    · rw [List.append_nil]
      exact ⟨values, between, hpasses⟩
    · cases hzero
  · rintro ⟨values, after, hpasses⟩
    have hend := hpasses.run_append console []
    rw [List.append_nil, hrun] at hend
    cases hend
    rfl

/-- The values of sources that pass: there is one if the source has a form, and it takes one
line. -/
theorem Passes.each_value {texts : List String} (h : Passes depth session front values between)
    (hreached : Session.Reached texts session) :
    (∀ pair ∈ front.zip values, pair.2.isSome ↔ Session.forms pair.1.text ≠ []) ∧
      ∀ value, some value ∈ values → '\n' ∉ value.render.toList := by
  induction h generalizing texts with
  | nil => simp
  | @cons session between after source rest value values hload hrest ih =>
    obtain ⟨origin, contents, shows⟩ := source
    cases contents with
    | error reason => cases hload
    | ok text =>
      have heval : session.eval depth text = some (.ok value, between) := hload
      obtain ⟨hsome, hlines⟩ := ih (hreached.eval heval)
      refine ⟨List.forall_mem_cons.mpr ⟨Session.isSome_iff_forms_ne_nil heval, hsome⟩, ?_⟩
      intro shown hmem
      rcases List.mem_cons.mp hmem with rfl | hmem
      · exact hreached.notMem_render heval
      · exact hlines shown hmem

end Runs

/-! ## The console -/

section Console

variable (console : Console) (origin : Origin) (source : Source) (value : Option Value)

@[simp] theorem output_announce : (announce origin console).output = console.output := by
  cases origin <;> simp [announce]

@[simp] theorem log_announce : (announce origin console).log = console.log := by
  cases origin <;> simp [announce]

theorem announce_of_log_eq_none {console : Console} (h : console.log = none) (origin : Origin) :
    announce origin console = console := by
  cases origin with
  | file path => exact Console.note_of_log_eq_none h _
  | expression | input => rfl

theorem showValue_eq :
    console.showValue value = console.print (lineOf value) := by
  cases value <;> simp [Console.showValue, Console.print, lineOf]

theorem output_written :
    (written console source value).output =
      console.output ++ if source.shows then lineOf value else "" := by
  unfold written
  by_cases hshows : source.shows
  · simp [hshows, showValue_eq, Console.print]
  · simp [hshows]

theorem log_written : (written console source value).log = console.log := by
  unfold written
  by_cases hshows : source.shows
  · simp [hshows, showValue_eq, Console.print]
  · simp [hshows]

theorem errors_written (h : console.log = none) :
    (written console source value).errors = console.errors := by
  unfold written
  rw [announce_of_log_eq_none h, Console.note_of_log_eq_none h]
  by_cases hshows : source.shows
  · simp [hshows, showValue_eq, Console.print]
  · simp [hshows]

end Console

section Front

variable {print : Bool} {front : List Source} {values : List (Option Value)}

/-- Behind sources that pass, their lines are on the output. -/
theorem output_writtenAll (console : Console) (hline : ∀ source ∈ front, ∀ value,
      source.line print value = if source.shows then lineOf value else "") :
    (writtenAll console front values).output =
      console.output ++ String.join (List.zipWith (Source.line print) front values) := by
  induction front generalizing console values with
  | nil => simp [writtenAll]
  | cons source rest ih =>
    obtain ⟨hsource, hrest⟩ := List.forall_mem_cons.mp hline
    cases values with
    | nil => simp [writtenAll]
    | cons value values =>
      have hlater : (writtenAll (written console source value) rest values).output = _ :=
        ih _ hrest
      rw [output_written, ← hsource value, String.append_assoc] at hlater
      simpa [writtenAll] using hlater

theorem errors_writtenAll {console : Console} (h : console.log = none) :
    (writtenAll console front values).log = none ∧
      (writtenAll console front values).errors = console.errors := by
  induction front generalizing console values with
  | nil => exact ⟨h, rfl⟩
  | cons source rest ih =>
    cases values with
    | nil => exact ⟨h, rfl⟩
    | cons value values =>
      have hlog : (written console source value).log = none := (log_written ..).trans h
      obtain ⟨hlater, herrors⟩ :
          (writtenAll (written console source value) rest values).log = none ∧
          (writtenAll (written console source value) rest values).errors = _ := ih hlog
      exact ⟨hlater, herrors.trans (errors_written console source value h)⟩

end Front

theorem output_blamed (console : Console) (source : Source) (error : SourceError) :
    (blamed console source error).output = console.output := by
  simp [blamed, Console.complain]

theorem errors_blamed {console : Console} (h : console.log = none) (source : Source)
    (error : SourceError) : (blamed console source error).errors =
      console.errors ++ error.report source.origin.name source.text := by
  rw [blamed, announce_of_log_eq_none h]
  rfl

/-! ## The sources of a run -/

section Options

variable {options : Options} {file : String → Except String String} {input : Except String String}

/-- The files, then the expression, and the standard input in place of no source at all. -/
theorem sources_eq (options : Options) (file : String → Except String String)
    (input : Except String String) :
    sources options file input = options.files.map (.ofFile options.print file) ++
      match options.expression, options.files with
      | some text, _ => [⟨.expression, .ok text, true⟩]
      | none, [] => [⟨.input, input, true⟩]
      | none, _ :: _ => [] := by
  obtain ⟨files, expression, print⟩ := options
  cases expression with
  | some text => rfl
  | none =>
    cases files with
    | nil => rfl
    | cons path rest =>
      simp only [sources, List.append_nil]
      rfl

theorem line_of_mem_sources {source : Source} (h : source ∈ sources options file input)
    (value : Option Value) :
    source.line options.print value = if source.shows then lineOf value else "" := by
  rw [sources_eq] at h
  rcases List.mem_append.mp h with hfile | hlast
  · obtain ⟨path, -, rfl⟩ := List.mem_map.mp hfile
    rfl
  · split at hlast
    · obtain rfl := List.mem_singleton.mp hlast
      rfl
    · obtain rfl := List.mem_singleton.mp hlast
      rfl
    · cases hlast

/-- Behind a file, the sources of a run are its later files and what comes behind all files. -/
theorem exists_sources_eq (file : String → Except String String) (input : Except String String)
    {front later : List String} {path : String}
    (h : options.files = front ++ path :: later) :
    ∃ rest, sources options file input =
      front.map (.ofFile options.print file) ++ .ofFile options.print file path :: rest := by
  rw [sources_eq, h, List.map_append, List.map_cons, List.append_assoc, List.cons_append]
  exact ⟨_, rfl⟩

/-- A file that fails behind files that pass decides the whole run. -/
theorem run_eq_of_file_fails {depth : Nat} {session between after : Session} {console : Console}
    {front later : List String} {path : String} {values : List (Option Value)} {error : SourceError}
    (hfiles : options.files = front ++ path :: later)
    (hpasses : Passes depth session (front.map (.ofFile options.print file)) values between)
    (hload : between.load depth path (file path) = some (.error error, after)) :
    run depth session console (sources options file input) =
      some (.failure, blamed
        (writtenAll console (front.map (.ofFile options.print file)) values)
        (.ofFile options.print file path) error) := by
  obtain ⟨rest, hsources⟩ := exists_sources_eq file input hfiles
  rw [hsources, hpasses.run_append]
  exact run_cons_of_error _ rest hload

end Options

/-! ## Runs from the command line -/

/-- A run of the sources that the options ask for, in a new session.

* The sources are the files, then the expression, and the standard input if there is neither.
* The exit code is zero if every source gives a value, and not otherwise.
* The sources in front of the first that fails give values: one has a value if it has a form.  The
  output is a line for each of these values, but for files only if that is asked for.
* The run ends with no source left, or with the report of the first that fails under its name.
  Besides that report only the log writes to the error stream.
* If a file fails behind files that give values, then a run with the same wish to print, that has
  these files in front and finds the same in them, does the same, whatever comes behind. -/
theorem run_stops_at_first_failure :
    (∀ (options : Options) (file : String → Except String String) (input : String) (depth : Nat)
      (log : Option Log.Filter) (status : Status) (console : Console),
      run depth .new (.new log) (sources options file (.ok input)) = some (status, console) →
      sources options file (.ok input) = options.files.map (.ofFile options.print file) ++
        (match options.expression, options.files with
          | some text, _ => [⟨.expression, .ok text, true⟩]
          | none, [] => [⟨.input, .ok input, true⟩]
          | none, _ :: _ => []) ∧
      (status.code = 0 ↔
        ∃ values after, Passes depth .new (sources options file (.ok input)) values after) ∧
      ∃ passed values between, Passes depth .new passed values between ∧
        (∀ pair ∈ passed.zip values, pair.2.isSome ↔ Session.forms pair.1.text ≠ []) ∧
        (∀ value, some value ∈ values → '\n' ∉ value.render.toList) ∧
        console.output = String.join (List.zipWith (Source.line options.print) passed values) ∧
        ((sources options file (.ok input) = passed ∧ status = .success ∧
            (log = none → console.errors = "")) ∨
          ∃ source later error after, sources options file (.ok input) = passed ++ source :: later ∧
            between.load depth source.origin.name source.contents = some (.error error, after) ∧
            status = .failure ∧
            (log = none → console.errors = error.report source.origin.name source.text))) ∧
    ∀ (options other : Options) (file elsewhere : String → Except String String)
      (input otherwise : Except String String) (depth : Nat) (log : Option Log.Filter)
      (front later others : List String) (path : String) (values : List (Option Value))
      (between after : Session) (error : SourceError),
      options.files = front ++ path :: later → other.files = front ++ path :: others →
      other.print = options.print → (∀ name ∈ front ++ [path], elsewhere name = file name) →
      Passes depth .new (front.map (.ofFile options.print file)) values between →
      between.load depth path (file path) = some (.error error, after) →
      ∃ console,
        run depth .new (.new log) (sources options file input) = some (.failure, console) ∧
        run depth .new (.new log) (sources other elsewhere otherwise) =
          some (.failure, console) := by
  constructor
  · intro options file input depth log status console hrun
    obtain ⟨passed, rest, values, between, hsources, hpasses, hends⟩ := exists_passes hrun
    obtain ⟨hvalues, hlines⟩ := hpasses.each_value .new
    have hshown : ∀ source ∈ passed, ∀ value,
        source.line options.print value = if source.shows then lineOf value else "" := by
      intro source hmem
      have hall : source ∈ sources options file (.ok input) := by
        rw [hsources]
        exact List.mem_append_left rest hmem
      exact line_of_mem_sources hall
    have houtput : (writtenAll (.new log) passed values).output =
        String.join (List.zipWith (Source.line options.print) passed values) := by
      rw [output_writtenAll _ hshown]
      rfl
    have herrors : log = none → (writtenAll (.new log) passed values).log = none ∧
        (writtenAll (.new log) passed values).errors = "" := fun hlog => errors_writtenAll hlog
    refine ⟨sources_eq .., code_eq_zero_iff hrun, passed, values, between, hpasses, hvalues,
      hlines, ?_⟩
    rcases hends with ⟨rfl, hstatus, rfl⟩ | ⟨source, later, error, after, rfl, hload, hstatus, rfl⟩
    · rw [List.append_nil] at hsources
      exact ⟨houtput, .inl ⟨hsources, hstatus, fun hlog => (herrors hlog).2⟩⟩
    · refine ⟨(output_blamed ..).trans houtput,
        .inr ⟨source, later, error, after, hsources, hload, hstatus, fun hlog => ?_⟩⟩
      obtain ⟨hnolog, hempty⟩ := herrors hlog
      rw [errors_blamed hnolog, hempty, String.empty_append]
  · intro options other file elsewhere input otherwise depth log front later others path values
      between after error hfiles hothers hprint hsame hpasses hload
    have hfront : front.map (Source.ofFile other.print elsewhere) =
        front.map (.ofFile options.print file) := by
      refine List.map_congr_left fun name hmem => ?_
      rw [Source.ofFile, Source.ofFile, hprint, hsame name (List.mem_append_left _ hmem)]
    have hpath : elsewhere path = file path := hsame path (by simp)
    refine ⟨_, run_eq_of_file_fails hfiles hpasses hload, ?_⟩
    rw [run_eq_of_file_fails hothers (hfront ▸ hpasses) (hpath ▸ hload), hfront]
    rw [Source.ofFile, Source.ofFile, hprint, hpath]

/-- Three scripts, of which only two are there. -/
def twoScripts : String → Except String String
  | "a" => .ok "(define x 7)"
  | "b" => .ok " "
  | _ => .error "No such file or directory (os error 2)"

/-- The first file gives a value, the second has no form and the third is missing.  Neither the
expression nor a fourth file makes a difference. -/
theorem run_stops_at_missing_file :
    ∃ console,
      run 2 .new (.new none) (sources ⟨["a", "b", "c"], some "x", true⟩ twoScripts (.ok "")) =
        some (.failure, console) ∧
      run 2 .new (.new none) (sources ⟨["a", "b", "c", "a"], none, true⟩ twoScripts (.ok "x")) =
        some (.failure, console) ∧
      console.output = lineOf (some (.number 7)) ∧
      console.errors = "Error: failed to read c: No such file or directory (os error 2)\n" ∧
      ¬ ∃ values after, Passes 2 .new
        (sources ⟨["a", "b", "c"], some "x", true⟩ twoScripts (.ok "")) values after := by
  have hfirst : Session.new.load 2 "a" (twoScripts "a") =
      some (.ok (some (.number 7)), ⟨Session.new.store.set 0 "x" (.number 7), 0⟩) := by
    exact Session.eval_of_read
      (.list [.symbol "define" ⟨1, 7⟩, .symbol "x" ⟨8, 9⟩, .number 7 ⟨10, 11⟩] ⟨0, 12⟩)
      (.ok (.number 7)) (by rfl) (by with_unfolding_all rfl)
  have hsecond : (⟨Session.new.store.set 0 "x" (.number 7), 0⟩ : Session).load 2 "b"
      (twoScripts "b") = some (.ok none, ⟨Session.new.store.set 0 "x" (.number 7), 0⟩) := by
    have hblank : Reader.readAll (Token.tokenize " ") = ([], none) := Reader.readAll_nil
    rw [twoScripts, Session.load, Session.eval_eq_evalRead, Session.forms, Session.fault?, hblank]
    rfl
  have hpasses : Passes 2 .new (["a", "b"].map (.ofFile true twoScripts))
      [some (.number 7), none] ⟨Session.new.store.set 0 "x" (.number 7), 0⟩ :=
    .cons hfirst (.cons hsecond .nil)
  obtain ⟨hends, hprefix⟩ := run_stops_at_first_failure
  obtain ⟨console, hrun, hother⟩ := hprefix ⟨["a", "b", "c"], some "x", true⟩
    ⟨["a", "b", "c", "a"], none, true⟩ twoScripts twoScripts (.ok "") (.ok "x") 2 none
    ["a", "b"] [] ["a"] "c" _ _ _ _ rfl rfl rfl (fun _ _ => rfl) hpasses rfl
  obtain ⟨-, hcode, -⟩ := hends _ _ _ _ _ _ _ hrun
  have hfiles : ["a", "b", "c"] = ["a", "b"] ++ "c" :: [] := rfl
  cases hrun.symm.trans (run_eq_of_file_fails hfiles hpasses rfl)
  refine ⟨_, hrun, hother, ?_, ?_, fun hall => ?_⟩
  · rfl
  · rfl
  · exact absurd (hcode.mpr hall) (by decide)

end Script
end TinyLisp
