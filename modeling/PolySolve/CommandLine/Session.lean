import PolySolve.CommandLine.Arguments
import PolySolve.CommandLine.PlotFile
import PolySolve.Plot
import PolySolve.Store.Access
import PolySolve.Store.Settings

/-!
# Runs of the program

One run of the program on the command line: it reads the settings, solves the equation given or
typed in, prints the answer, keeps it in the history and saves a plot if one is asked for. A run
ends with an exit code or a fault, and tells what was printed, the store as it then is, and the
plot to save.
-/

namespace PolySolve.CommandLine

open Text

/-- Why a run ends without an exit code. -/
inductive RunFault where
  | solving (f : Fault)
  | store (f : StoreFault)
  | margin (f : MarginFault)
  /-- There is no line to read the equation from. -/
  | noInput
  | plot (f : Plot.PlotFault)
  | file (f : PlotFileFault)
  deriving DecidableEq

namespace RunFault

def message : RunFault → List Char
  | solving f => f.message
  | store f => f.message
  | margin f => f.message
  | noInput => "EOF when reading a line".toList
  | plot f => f.message
  | file f => f.message

end RunFault

/-- What a run can find around it. -/
structure Surroundings where
  storePath : List Char
  stamp : Record.Stamp
  files : FileTree

/-- What a run has done so far. -/
structure Session where
  store : StoreFile
  output : List Char
  errors : List Char
  /-- Where a plot is saved, and the plot. -/
  plot : Option (Location × Plot)

namespace Session

def start (store : StoreFile) : Session := ⟨store, [], [], none⟩

end Session

abbrev Action := ExceptT RunFault (StateM Session)

namespace Action

def print (text : List Char) : Action Unit := modify fun s => { s with output := s.output ++ text }

def printError (text : List Char) : Action Unit :=
  modify fun s => { s with errors := s.errors ++ text }

/-- Print the log entries from a level on. -/
def report (level : Nat) (entries : List LogEntry) : Action Unit :=
  printError ((shownFrom level entries).flatMap fun e => e.line ++ ['\n'])

/-- Use the store, and print its warnings. -/
def useStore (printed : StoreWarning → List Char) (use : StoreAccess α) : Action α := do
  let s ← get
  let (result, state) := use.runOn s.store
  set { s with store := state.file, errors := s.errors ++ state.warnings.flatMap printed }
  match result with
  | .ok a => return a
  | .error f => throw (.store f)

end Action

/-! ## Runs -/

/-- What a run needs to know before it solves an equation. -/
structure Task where
  settings : Json.Members
  equation : Option (List Char)
  file : Option (List Char)

section

variable (depth : StoreDepth)

/-- A run's beginning: an exit code, or a task. -/
def begin (s : Surroundings) (arguments : List (List Char)) : Action (Nat ⊕ Task) := do
  match read arguments with
  | .error e =>
    Action.printError e.report
    return .inl 2
  | .ok .help =>
    Action.print helpText
    return .inl 0
  | .ok (.solve equation file) =>
    let settings ← Action.useStore (fun w => w.message s.storePath ++ ['\n'])
      (Store.settings depth)
    return .inr ⟨settings, equation, file⟩

def prompt : List Char :=
  ("Please enter a polynomial equation " ++
    "(e.g., \"5 * X^0 + 4 * X^1 - 9.3 * X^2 = 1 * X^0\"): ").toList

/-- The first line of the input. -/
def firstLine (input : List Char) : Except RunFault (List Char) :=
  if input = [] then .error .noInput else .ok (input.takeWhile (· != '\n'))

def mainEntry (severity : Severity) (message : List Char) : LogEntry :=
  ⟨severity, "main".toList, message⟩

/-- A warning of the store on a log line. -/
def storeEntry (s : Surroundings) (w : StoreWarning) : LogEntry :=
  ⟨.warning, "solver.storage".toList, w.message s.storePath⟩

/-- Save the plot of a solved equation. -/
def savePlot (s : Surroundings) (settings : Json.Members) (r : Report) (file : List Char) :
    Action Unit := do
  let level := Store.logLevel settings
  Action.report level (Equation.entries r.equation)
  let margin ← (Store.plotMargin settings).mapError RunFault.margin
  let plot ← (Plot.of r.polynomial r.outcome margin).mapError RunFault.plot
  let target := PlotFile.ofPath file
  target.checkFormat.mapError RunFault.file
  Action.report level target.entries
  let location ← (target.locate s.files).mapError RunFault.file
  modify fun t => { t with plot := some (location, plot) }
  Action.report level [mainEntry .info ("graph saved to ".toList ++ file)]

/-- Solve the equation of a task as it was given or typed in. -/
def solve (s : Surroundings) (task : Task) (typed : List Char) : Action Nat := do
  let level := Store.logLevel task.settings
  let equation := upper typed
  Action.report level (Equation.entries equation)
  match Report.ofEquation equation with
  | .error (.equation e) =>
    Action.report level
      [mainEntry .debug ("rejected ".toList ++ quote equation ++ ": ".toList ++ e.detail)]
    Action.printError ("Error: ".toList ++ e.message ++ ['\n'])
    return 1
  | .error f => throw (.solving f)
  | .ok r =>
    Action.print (r.lines.flatMap (· ++ ['\n']))
    if Store.keepsHistory task.settings then
      Action.useStore (fun w => (shownFrom level [storeEntry s w]).flatMap (·.line ++ ['\n']))
        (Store.addRecord depth (.stamped s.stamp (.text equation)
          (.text (['\n'].intercalate (r.lines.drop 2)))))
    match task.file with
    | some (c :: file) => savePlot s task.settings r (c :: file)
    | _ => pure ()
    return 0

/-- A whole run, with what is typed in. -/
def run (s : Surroundings) (arguments : List (List Char)) (input : List Char) : Action Nat := do
  match ← begin depth s arguments with
  | .inl code => return code
  | .inr task =>
    match task.equation with
    | some equation => solve depth s task equation
    | none =>
      Action.print prompt
      solve depth s task (← firstLine input)

/-- A run on a store. -/
def runOn (s : Surroundings) (arguments : List (List Char)) (input : List Char)
    (store : StoreFile) : Except RunFault Nat × Session :=
  (ExceptT.run (run depth s arguments input)).run (.start store)

end

end PolySolve.CommandLine
