import PolySolve.Decimal.Reading
import PolySolve.Log
import PolySolve.Store.File
import PolySolve.Text.Quoted
import PolySolve.Text.Uppercase

/-!
# What the settings say

The settings in the store are JSON values of any kind. Here is what the program takes from them:
the level from which log entries are shown, whether solved equations are kept, and the margin of
plots.
-/

namespace PolySolve

open Text

/-- The named levels. -/
def levelNames : List (List Char × Nat) := [
  ("CRITICAL".toList, 50), ("FATAL".toList, 50), ("ERROR".toList, 40), ("WARNING".toList, 30),
  ("WARN".toList, 30), ("INFO".toList, 20), ("DEBUG".toList, 10), ("NOTSET".toList, 0)]

/-- The level of a name in any case; anything that names no level stands for warnings. -/
def levelOf (name : Json) : Nat :=
  match name with
  | .string s =>
    match ofCodePoints? s with
    | some cs => (levelNames.lookup (upper cs)).getD Severity.warning.level
    | none => Severity.warning.level
  | _ => Severity.warning.level

/-- Why a value is not the margin of a plot. -/
inductive MarginFault where
  | notNumber (s : List CodePoint)
  | wrongType (name : List Char)
  | tooLarge
  deriving DecidableEq

namespace MarginFault

def message : MarginFault → List Char
  | notNumber s => "could not convert string to float: ".toList ++ quotePoints s
  | wrongType name =>
    "float() argument must be a string or a real number, not '".toList ++ name ++ ['\'']
  | tooLarge => "int too large to convert to float".toList

end MarginFault

/-- The number that a value stands for: a number, a written number, or a truth value as zero or
one. -/
def marginOf : Json → Except MarginFault Binary64
  | .bool b => .ok (if b then 1 else 0)
  | .int n =>
    let x := Binary64.ofInt n
    if x.isFinite then .ok x else .error .tooLarge
  | .float x => .ok x
  | .string s =>
    match (ofCodePoints? s).bind Decimal.value? with
    | some x => .ok x
    | none => .error (.notNumber s)
  | .null => .error (.wrongType "NoneType".toList)
  | .array _ => .error (.wrongType "list".toList)
  | .object _ => .error (.wrongType "dict".toList)

namespace Store

/-- A setting among all settings. -/
def setting (name : String) (settings : Json.Members) : Json :=
  (settings.lookup (codePoints name.toList)).getD .null

/-- The level from which log entries are shown. -/
def logLevel (settings : Json.Members) : Nat := levelOf (setting "log_level" settings)

/-- Whether solved equations go to the history. -/
def keepsHistory (settings : Json.Members) : Bool := (setting "save_history" settings).isTruthy

/-- The margin of plots. -/
def plotMargin (settings : Json.Members) : Except MarginFault Binary64 :=
  marginOf (setting "plot_window" settings)

end Store

end PolySolve
