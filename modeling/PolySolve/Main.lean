import PolySolve.CommandLine.Session
import Std.Time.Format
import Std.Time.Zoned

/-!
# The program

The outer layer of the command line: it reads the store and what is typed in, performs a run, and
writes what the run printed, the store and the plot. A plot is saved as its title, its legend and
the points of its curve.
-/

namespace PolySolve.CommandLine

def storeFolder : String := "data"

def storePath : String := "data/computor.json"

def readStore : IO StoreFile := do
  try
    return .bytes (← IO.FS.readBinFile storePath).toList
  catch
    | .noFileOrDirectory .. => return .absent
    | _ => return .folder

def writeStore : StoreFile → IO Unit
  | .bytes content => do
    IO.FS.createDirAll storeFolder
    IO.FS.writeBinFile storePath ⟨content.toArray⟩
  | _ => return

def plotText (g : Plot) : List Char :=
  let point (p : Plot.Point) := Decimal.generalChars p.x ++ ' ' :: Decimal.generalChars p.y
  ['\n'].intercalate
    (g.title :: g.legend ++ (List.range Plot.sampleCount).map fun i => point (g.curvePoint i))

/-- The time of a record made now, and a random token for it. -/
def stampNow : IO Record.Stamp := do
  let token ← (List.range Record.tokenLength).foldlM
    (fun token _ => return 16 * token + (← IO.rand 0 15)) 0
  let day ← Std.Time.PlainDateTime.now
  let now ← Std.Time.Timestamp.now
  let nanoseconds := now.toNanosecondsSinceUnixEpoch.val.toNat
  return ⟨token, (day.format "uuuu-MM-dd HH:mm:ss").toList,
    (⟨nanoseconds, -9⟩ : Decimal).toBinary64 false⟩

/-- The path of the file that a plot is asked for in. -/
def askedPath (arguments : List (List Char)) : List Char :=
  match read arguments with
  | .ok (.solve _ (some file)) => (PlotFile.ofPath file).path
  | _ => []

def entryAt (l : Location) : IO (Option Entry) := do
  let path := (← IO.currentDir) / String.ofList ('/' :: l.path)
  if ← path.isDir then return some .folder
  return if ← path.pathExists then some .file else none

/-- What stands at the locations that a path goes through. -/
def entriesAlong (here : Location) :
    List (List Char) → IO (List (Location × Option Entry))
  | [] => return []
  | name :: rest => do
    let there := here.enter name
    return (there, ← entryAt there) :: (← entriesAlong there rest)

/-- The folders and files as far as a path goes through them. -/
def filesAlong (path : List Char) : IO FileTree := do
  let current := (pathNames (← IO.currentDir).toString.toList).foldl Location.enter []
  let start : FileTree := ⟨current, fun _ => none⟩
  let entries ← entriesAlong (start.origin path) (pathNames path)
  return { start with entry := fun l => (entries.lookup l).join }

def surroundings (arguments : List (List Char)) : IO Surroundings := do
  return ⟨storePath.toList, ← stampNow, ← filesAlong (askedPath arguments)⟩

/-- Write what an action printed, and do what it leaves to do. -/
def perform (action : Action α) (store : StoreFile) : IO (Except RunFault α × StoreFile) := do
  let (result, session) := (ExceptT.run action).run (.start store)
  IO.print (String.ofList session.output)
  (← IO.getStdout).flush
  IO.eprint (String.ofList session.errors)
  if session.store ≠ store then writeStore session.store
  if let some (location, plot) := session.plot then
    IO.FS.writeFile (String.ofList location.path) (String.ofList (plotText plot))
  return (result, session.store)

def finish : Except RunFault Nat → IO UInt32
  | .ok code => return code.toUInt32
  | .error f => do
    IO.eprintln (String.ofList ("error: ".toList ++ f.message))
    return 1

/-- Perform a run; its equation may be typed in. -/
def runProgram (arguments : List (List Char)) : IO UInt32 := do
  let place ← surroundings arguments
  let (begun, store) ← perform (begin .usual place arguments) (← readStore)
  match begun with
  | .error f => finish (.error f)
  | .ok (.inl code) => finish (.ok code)
  | .ok (.inr task) =>
    let typed ← match task.equation with
      | some equation => pure (.ok equation)
      | none =>
        IO.print (String.ofList prompt)
        (← IO.getStdout).flush
        pure (firstLine (← (← IO.getStdin).getLine).toList)
    match typed with
    | .error f => finish (.error f)
    | .ok equation => finish (← perform (solve .usual place task equation) store).1

end PolySolve.CommandLine

def main (arguments : List String) : IO UInt32 :=
  PolySolve.CommandLine.runProgram (arguments.map String.toList)
