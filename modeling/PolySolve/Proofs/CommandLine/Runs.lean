import PolySolve.CommandLine.Session
import PolySolve.Proofs.Store.Readers

/-!
# Runs one after another

How a run with an equation ends, and what it prints, is told by the equation, as long as the store
has contents at all. The contents decide only whether a solved equation goes to the history. Other
than that the file stays as it is, byte for byte.

* `Ends`: what an action comes to in a session;
* `ends_solve_rejected`, `ends_solve_failed`, `ends_solve_solved`: solving, by what it comes to;
* `Call`, `Call.Ran`: runs with an equation, and what such a run does to a file with contents;
* `holds_storeAfter`: the contents after any number of runs;
* `ran_after_runs`: a run after any number of others;
* `Call.run_of_fault`: a store with a fault stops all of them.
-/

namespace PolySolve.CommandLine

open Text

/-! ## Actions -/

/-- From one session an action gives a result in another. -/
def Ends (x : Action α) (s : Session) (result : Except RunFault α) (t : Session) : Prop :=
  (ExceptT.run x).run s = (result, t)

section

variable {x : Action α} {f : α → Action β} {s t u : Session} {a : α}

theorem ends_pure (a : α) (s : Session) : Ends (pure a) s (.ok a) s := rfl

theorem ends_throw (e : RunFault) (s : Session) :
    Ends (throw e : Action α) s (.error e) s := rfl

theorem ends_get (s : Session) : Ends get s (.ok s) s := rfl

theorem ends_set (s t : Session) : Ends (set t) s (.ok ()) t := rfl

theorem Ends.bind {result : Except RunFault β} (hx : Ends x s (.ok a) t)
    (hf : Ends (f a) t result u) : Ends (x >>= f) s result u := by
  unfold Ends at *
  rw [ExceptT.run_bind, StateT.run_bind, hx]
  exact hf

theorem Ends.bind_error {e : RunFault} (hx : Ends x s (.error e) t) :
    Ends (x >>= f) s (.error e) t := by
  unfold Ends at *
  rw [ExceptT.run_bind, StateT.run_bind, hx]
  rfl

theorem ends_print (text : List Char) (s : Session) :
    Ends (Action.print text) s (.ok ()) { s with output := s.output ++ text } := rfl

theorem ends_printError (text : List Char) (s : Session) :
    Ends (Action.printError text) s (.ok ()) { s with errors := s.errors ++ text } := rfl

/-- Log entries are printed with the errors. -/
theorem ends_report (level : Nat) (entries : List LogEntry) (s : Session) :
    ∃ log, Ends (Action.report level entries) s (.ok ()) { s with errors := s.errors ++ log } :=
  ⟨_, ends_printError _ s⟩

/-- A use of the store in a run: its warnings are printed with the errors, and its fault is a fault
of the run. -/
theorem ends_useStore {use : StoreAccess α} {result : Except StoreFault α} {state : StoreState}
    (printed : StoreWarning → List Char) (h : use.runOn s.store = (result, state)) :
    Ends (Action.useStore printed use) s (result.mapError .store)
      { s with store := state.file, errors := s.errors ++ state.warnings.flatMap printed } := by
  unfold Action.useStore
  refine (ends_get s).bind ?_
  rw [h]
  refine (ends_set s _).bind ?_
  cases result with
  | ok a => exact ends_pure a _
  | error f => exact ends_throw _ _

theorem ends_useStore_of_runs {use : StoreAccess α} {next : StoreFile}
    (printed : StoreWarning → List Char) (h : Store.Runs use s.store a next) :
    ∃ log, Ends (Action.useStore printed use) s (.ok a)
      { s with store := next, errors := s.errors ++ log } := by
  obtain ⟨later, hrun⟩ := h.runOn
  exact ⟨later.flatMap printed, ends_useStore printed hrun⟩

end

/-! ## Solving -/

section

variable {depth : StoreDepth} {s : Surroundings} {task : Task} {typed : List Char}

theorem ends_solve_rejected {e : EquationError}
    (h : Report.ofEquation (upper typed) = .error (.equation e)) (session : Session) :
    ∃ log, Ends (solve depth s task typed) session (.ok 1)
      { session with
        errors := session.errors ++ log ++ ("Error: ".toList ++ e.message ++ ['\n']) } := by
  obtain ⟨entries, hentries⟩ :=
    ends_report (Store.logLevel task.settings) (Equation.entries (upper typed)) session
  obtain ⟨reason, hreason⟩ := ends_report (Store.logLevel task.settings)
    [mainEntry .debug ("rejected ".toList ++ quote (upper typed) ++ ": ".toList ++ e.detail)]
    { session with errors := session.errors ++ entries }
  refine ⟨entries ++ reason, ?_⟩
  unfold solve
  dsimp only
  rw [h]
  refine hentries.bind (hreason.bind ((ends_printError _ _).bind ?_))
  rw [List.append_assoc session.errors]
  exact ends_pure 1 _

theorem ends_solve_failed {f : Fault} (h : Report.ofEquation (upper typed) = .error f)
    (hf : ∀ e, f ≠ .equation e) (session : Session) :
    ∃ log, Ends (solve depth s task typed) session (.error (.solving f))
      { session with errors := session.errors ++ log } := by
  obtain ⟨entries, hentries⟩ :=
    ends_report (Store.logLevel task.settings) (Equation.entries (upper typed)) session
  refine ⟨entries, ?_⟩
  unfold solve
  dsimp only
  rw [h]
  refine hentries.bind ?_
  cases f with
  | equation e => exact absurd rfl (hf e)
  | _ => exact ends_throw _ _

/-- The record that a run keeps of a solved equation. -/
def recordOf (s : Surroundings) (typed : List Char) (r : Report) : Record :=
  .stamped s.stamp (.text (upper typed)) (.text (['\n'].intercalate (r.lines.drop 2)))

/-- The record has texts for the equation and its answer. -/
theorem admissible_recordOf (depth : StoreDepth) (s : Surroundings) (typed : List Char)
    (r : Report) : (Store.Use.addRecord (recordOf s typed r)).Admissible depth :=
  ⟨Store.isArgument_text _ _, Store.isArgument_text _ _⟩

theorem ends_solve_solved {r : Report} (h : Report.ofEquation (upper typed) = .ok r)
    (hplot : task.file = none) (session : Session) {next : StoreFile}
    (hstore : if Store.keepsHistory task.settings then
      Store.Runs (Store.addRecord depth (recordOf s typed r)) session.store () next
      else next = session.store) :
    ∃ log, Ends (solve depth s task typed) session (.ok 0)
      { session with
        store := next
        output := session.output ++ r.lines.flatMap (· ++ ['\n'])
        errors := session.errors ++ log } := by
  obtain ⟨entries, hentries⟩ :=
    ends_report (Store.logLevel task.settings) (Equation.entries (upper typed)) session
  unfold solve
  dsimp only
  rw [h, hplot]
  by_cases hkeeps : Store.keepsHistory task.settings
  · rw [if_pos hkeeps] at hstore
    simp only [if_pos hkeeps]
    obtain ⟨warnings, hwarnings⟩ := ends_useStore_of_runs (s := { session with
      output := session.output ++ r.lines.flatMap (· ++ ['\n'])
      errors := session.errors ++ entries })
      (fun w => (shownFrom (Store.logLevel task.settings) [storeEntry s w]).flatMap
        (·.line ++ ['\n'])) hstore
    refine ⟨entries ++ warnings, ?_⟩
    rw [← List.append_assoc]
    exact hentries.bind ((ends_print _ _).bind (hwarnings.bind (ends_pure _ _)))
  · rw [if_neg hkeeps] at hstore
    simp only [if_neg hkeeps]
    subst hstore
    exact ⟨entries, hentries.bind ((ends_print _ _).bind (ends_pure 0 _))⟩

end

/-! ## Runs with an equation -/

/-- A run with an equation for its only argument, or without arguments and with the equation in the
first line of its input. -/
inductive Call where
  | given (s : Surroundings) (equation input : List Char) (h : ∀ r, equation ≠ '-' :: r)
  | typed (s : Surroundings) (input : List Char) (h : input ≠ [])

namespace Call

def surroundings : Call → Surroundings
  | given s .. => s
  | typed s .. => s

def equation : Call → List Char
  | given _ equation .. => equation
  | typed _ input _ => input.takeWhile (· != '\n')

/-- What is printed before the equation is known. -/
def asked : Call → List Char
  | given .. => []
  | typed .. => prompt

/-- The run on a store. -/
def run (depth : StoreDepth) : Call → StoreFile → Except RunFault Nat × Session
  | given s equation input _ => runOn depth s [equation] input
  | typed s input _ => runOn depth s [] input

/-- What solving the equation comes to. -/
def report (c : Call) : Except Fault Report := Report.ofEquation (upper c.equation)

/-- How the run ends, by its equation alone. -/
def exit (c : Call) : Except RunFault Nat :=
  match c.report with
  | .ok _ => .ok 0
  | .error (.equation _) => .ok 1
  | .error f => .error (.solving f)

/-- What is printed, by the equation alone. -/
def output (c : Call) : List Char :=
  match c.report with
  | .ok r => c.asked ++ r.lines.flatMap (· ++ ['\n'])
  | .error _ => c.asked

/-- The record that is kept in the history, if one is. -/
def kept (c : Call) (contents : Json.Members) : Option Record :=
  match c.report with
  | .ok r =>
    if Store.keepsHistory (Store.settingsOf contents) then
      some (recordOf c.surroundings c.equation r)
    else none
  | .error _ => none

/-- The contents of the store after the run. -/
def after (c : Call) (contents : Json.Members) : Json.Members :=
  match c.kept contents with
  | some r => contents.put Store.historyName
      (.array ((r.toJson :: Store.itemsAt Store.historyName contents).take 200))
  | none => contents

/-- What a run does to a file that stands for some contents. -/
structure Ran (depth : StoreDepth) (c : Call) (file : StoreFile) (contents : Json.Members)
    (done : Except RunFault Nat × Session) : Prop where
  exit : done.1 = c.exit
  output : done.2.output = c.output
  message : ∀ e, c.report = .error (.equation e) →
    ∃ log, done.2.errors = log ++ ("Error: ".toList ++ e.message ++ ['\n'])
  plot : done.2.plot = none
  /-- The file is the same if nothing is kept. -/
  unchanged : c.kept contents = none → done.2.store = file
  holds : done.2.store.Holds depth (c.after contents)

end Call

section

variable {depth : StoreDepth} {file : StoreFile} {contents : Json.Members}

theorem ends_begin {s : Surroundings} {arguments : List (List Char)}
    {equation plotFile : Option (List Char)}
    (hread : read arguments = .ok (.solve equation plotFile)) (h : file.Holds depth contents) :
    ∃ log, Ends (begin depth s arguments) (.start file)
      (.ok (.inr ⟨Store.settingsOf contents, equation, plotFile⟩)) ⟨file, [], log, none⟩ := by
  obtain ⟨log, hsettings⟩ := ends_useStore_of_runs (s := .start file)
    (fun w => w.message s.storePath ++ ['\n']) (Store.runs_settings h)
  refine ⟨log, ?_⟩
  unfold begin
  rw [hread]
  exact hsettings.bind (ends_pure _ _)

/-- A run comes down to solving its equation, with the settings in the store. -/
theorem Call.exists_task (c : Call) (h : file.Holds depth contents) :
    ∃ task log, task.settings = Store.settingsOf contents ∧ task.file = none ∧
      ∀ {result t},
        Ends (solve depth c.surroundings task c.equation) ⟨file, c.asked, log, none⟩ result t →
        c.run depth file = (result, t) := by
  cases c with
  | given s equation input hequation =>
    obtain ⟨log, hbegin⟩ := ends_begin (s := s) (read_value hequation) h
    refine ⟨⟨Store.settingsOf contents, some equation, none⟩, log, rfl, rfl,
      fun {result t} hsolve => ?_⟩
    have hrun : Ends (CommandLine.run depth s [equation] input) (.start file) result t :=
      hbegin.bind hsolve
    exact hrun
  | typed s input hinput =>
    have hread : read [] = .ok (.solve none none) := rfl
    have hline : firstLine input = .ok (input.takeWhile (· != '\n')) := if_neg hinput
    obtain ⟨log, hbegin⟩ := ends_begin (s := s) hread h
    refine ⟨⟨Store.settingsOf contents, none, none⟩, log, rfl, rfl, fun {result t} hsolve => ?_⟩
    have hrun : Ends (CommandLine.run depth s [] input) (.start file) result t := by
      refine hbegin.bind ((ends_print prompt _).bind ?_)
      rw [hline]
      exact (ends_pure _ _).bind hsolve
    exact hrun

theorem Call.after_of_kept {c : Call} {r : Record} (h : c.kept contents = some r) :
    c.after contents = (Store.Use.addRecord r).after contents := by
  rw [after, h]
  rfl

/-- What a solved equation does to the store. -/
theorem Call.exists_next (c : Call) {r : Report} (hreport : c.report = .ok r)
    (h : file.Holds depth contents) :
    ∃ next, (if Store.keepsHistory (Store.settingsOf contents) then
        Store.Runs (Store.addRecord depth (recordOf c.surroundings c.equation r)) file () next
        else next = file) ∧
      (c.kept contents = none → next = file) ∧ next.Holds depth (c.after contents) := by
  by_cases hkeeps : Store.keepsHistory (Store.settingsOf contents)
  · have hkept : c.kept contents = some (recordOf c.surroundings c.equation r) := by
      rw [kept, hreport]
      exact if_pos hkeeps
    obtain ⟨next, hrun, hnext⟩ :=
      Store.exists_addRecord (admissible_recordOf depth c.surroundings c.equation r) h
    refine ⟨next, ?_, fun hnone => ?_, ?_⟩
    · rw [if_pos hkeeps]
      exact hrun
    · rw [hkept] at hnone
      contradiction
    · rw [after_of_kept hkept]
      exact hnext
  · have hkept : c.kept contents = none := by
      rw [kept, hreport]
      exact if_neg hkeeps
    refine ⟨file, ?_, fun _ => rfl, ?_⟩
    · rw [if_neg hkeeps]
    · rw [after, hkept]
      exact h

theorem Call.kept_of_error {c : Call} {f : Fault} (h : c.report = .error f)
    (contents : Json.Members) : c.kept contents = none := by
  rw [kept, h]

theorem Call.after_of_error {c : Call} {f : Fault} (h : c.report = .error f)
    (contents : Json.Members) : c.after contents = contents := by
  rw [after, kept_of_error h]

/-- What a run without a report does, by what it prints as errors. -/
theorem Call.Ran.of_error {c : Call} {f : Fault} (hreport : c.report = .error f)
    (h : file.Holds depth contents) {errors : List Char}
    (hmessage : ∀ e, f = .equation e →
      ∃ log, errors = log ++ ("Error: ".toList ++ e.message ++ ['\n'])) :
    c.Ran depth file contents (c.exit, ⟨file, c.asked, errors, none⟩) where
  exit := rfl
  output := by rw [Call.output, hreport]
  message e he := hmessage e (Except.error.inj (hreport.symm.trans he))
  plot := rfl
  unchanged _ := rfl
  holds := by
    rw [after_of_error hreport]
    exact h

/-- One run on a file that stands for some contents. -/
theorem Call.ran (c : Call) (h : file.Holds depth contents) :
    c.Ran depth file contents (c.run depth file) := by
  obtain ⟨task, log, hsettings, hplot, hrun⟩ := c.exists_task h
  cases hreport : c.report with
  | error f =>
    by_cases hf : ∃ e, f = .equation e
    · obtain ⟨e, rfl⟩ := hf
      obtain ⟨later, hends⟩ := ends_solve_rejected hreport ⟨file, c.asked, log, none⟩
      have hexit : c.exit = .ok 1 := by rw [exit, hreport]
      rw [hrun hends, ← hexit]
      refine .of_error hreport h fun e' he' => ?_
      rw [← Fault.equation.inj he']
      exact ⟨log ++ later, rfl⟩
    · obtain ⟨later, hends⟩ := ends_solve_failed hreport (fun e he => hf ⟨e, he⟩)
        ⟨file, c.asked, log, none⟩
      have hexit : c.exit = .error (.solving f) := by
        rw [exit, hreport]
        cases f with
        | equation e => exact absurd ⟨e, rfl⟩ hf
        | _ => rfl
      rw [hrun hends, ← hexit]
      exact .of_error hreport h fun e he => absurd ⟨e, he⟩ hf
  | ok r =>
    obtain ⟨next, hstore, hunchanged, hholds⟩ := c.exists_next hreport h
    rw [← hsettings] at hstore
    obtain ⟨later, hends⟩ :=
      ends_solve_solved hreport hplot ⟨file, c.asked, log, none⟩ hstore
    rw [hrun hends]
    exact {
      exit := by rw [exit, hreport]
      output := by rw [output, hreport]
      message := fun e he => by
        rw [hreport] at he
        contradiction
      plot := rfl
      unchanged := hunchanged
      holds := hholds }

end

/-! ## Any number of runs -/

/-- The file after runs one after another. -/
def storeAfter (depth : StoreDepth) (calls : List Call) (file : StoreFile) : StoreFile :=
  calls.foldl (fun file c => (c.run depth file).2.store) file

/-- The contents after runs one after another. -/
def contentsAfter (calls : List Call) (contents : Json.Members) : Json.Members :=
  calls.foldl (fun contents c => c.after contents) contents

section

variable {depth : StoreDepth} {file : StoreFile} {contents : Json.Members}

theorem holds_storeAfter {calls : List Call} (h : file.Holds depth contents) :
    (storeAfter depth calls file).Holds depth (contentsAfter calls contents) := by
  induction calls generalizing file contents with
  | nil => exact h
  | cons c cs ih => exact ih (c.ran h).holds

/-- A run after any others. How it ends and what it prints is told by its equation alone. It changes
the store only to put the record of a solved equation in front of the history. -/
theorem ran_after_runs (earlier : List Call) (c : Call) (h : file.Holds depth contents) :
    c.Ran depth (storeAfter depth earlier file) (contentsAfter earlier contents)
      (c.run depth (storeAfter depth earlier file)) :=
  c.ran (holds_storeAfter h)

end

/-! ## Stores that cannot be read -/

section

variable {depth : StoreDepth} {file : StoreFile} {f : StoreFault}

theorem runOn_settings_of_fault (h : file.read depth = .error f) :
    (Store.settings depth).runOn file = (.error f, ⟨file, []⟩) := by
  rw [Store.runOn_settings, StoreFile.warnings, h]
  rfl

theorem ends_begin_of_fault {s : Surroundings} {arguments : List (List Char)}
    {equation plotFile : Option (List Char)}
    (hread : read arguments = .ok (.solve equation plotFile)) (h : file.read depth = .error f) :
    Ends (begin depth s arguments) (.start file) (.error (.store f)) (.start file) := by
  have hsettings := ends_useStore (s := .start file) (fun w => w.message s.storePath ++ ['\n'])
    (runOn_settings_of_fault h)
  unfold begin
  rw [hread]
  exact hsettings.bind_error

/-- A store with a fault stops every run, whatever the equation is. -/
theorem Call.run_of_fault (c : Call) (h : file.read depth = .error f) :
    c.run depth file = (.error (.store f), .start file) := by
  cases c with
  | given s equation input hequation =>
    have hrun : Ends (CommandLine.run depth s [equation] input) (.start file) (.error (.store f))
        (.start file) := (ends_begin_of_fault (read_value hequation) h).bind_error
    exact hrun
  | typed s input hinput =>
    have hrun : Ends (CommandLine.run depth s [] input) (.start file) (.error (.store f))
        (.start file) := (ends_begin_of_fault rfl h).bind_error
    exact hrun

end

/-! ## Some runs -/

def someSurroundings : Surroundings where
  storePath := "data/computor.json".toList
  stamp := ⟨0, "2024-01-01 00:00:00".toList, 0⟩
  files := ⟨[], fun _ => none⟩

/-- A run with the equation `x^1=0`. -/
def solvedCall : Call :=
  .given someSurroundings ['x', '^', '1', '=', '0'] [] fun _ h => by cases h

/-- A run with a line that is no equation. -/
def rejectedCall : Call := .typed someSurroundings "none\n".toList (by decide)

theorem exit_solvedCall : solvedCall.exit = .ok 0 := by decide +kernel

/-- After an equation is solved without a store, a line that is no equation is rejected, and the
record of the first stays. -/
theorem ran_rejectedCall :
    StoreFile.absent.Holds .usual Store.initial ∧
      (rejectedCall.run .usual (storeAfter .usual [solvedCall] .absent)).1 = .ok 1 ∧
      (rejectedCall.run .usual (storeAfter .usual [solvedCall] .absent)).2.output = prompt ∧
      (rejectedCall.run .usual (storeAfter .usual [solvedCall] .absent)).2.store =
        storeAfter .usual [solvedCall] .absent := by
  have hholds : StoreFile.absent.Holds .usual Store.initial := .absent
  have hran := ran_after_runs [solvedCall] rejectedCall hholds
  have hexit : rejectedCall.exit = .ok 1 := by decide +kernel
  have houtput : rejectedCall.output = prompt := by decide +kernel
  have hreport : rejectedCall.report = .error (.equation (.separator "NONE".toList)) := by
    decide +kernel
  exact ⟨hholds, hran.exit.trans hexit, hran.output.trans houtput,
    hran.unchanged (Call.kept_of_error hreport _)⟩

/-- A run that solves its equation without a store ends with a fault if the store has three thousand
arrays within each other. -/
theorem run_deepStore :
    (solvedCall.run .usual .absent).1 = .ok 0 ∧
      (solvedCall.run .usual (.nested 3000)).1 = .error (.store (.tooDeep .array)) := by
  have hread : (StoreFile.nested 3000).read .usual = .error (.tooDeep .array) :=
    StoreFile.read_nested (by decide)
  rw [solvedCall.run_of_fault hread]
  exact ⟨(solvedCall.ran .absent).exit.trans exit_solvedCall, rfl⟩

end PolySolve.CommandLine
