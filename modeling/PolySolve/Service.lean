import PolySolve.Service.Body
import PolySolve.Solution.Report
import PolySolve.Text.Uppercase

/-!
# The solving service

The answer to a request whose body is a JSON object with an equation: a report, or the reason why
there is none. There is no reply if the notice of a refusal cannot be sent.
-/

namespace PolySolve.Service

open Text

inductive Answer where
  | solved (r : Report)
  | rejected (e : EquationError)
  | blankEquation
  | unreadableBody
  | failed (f : Fault)
  | invalid (p : BodyProblem)
  deriving DecidableEq

namespace Answer

def status : Answer → Nat
  | solved _ => 200
  | rejected _ | blankEquation | unreadableBody => 400
  | invalid _ => 422
  | failed _ => 500

/-- The reason for an answer without a report. -/
def detail : Answer → List Char
  | rejected e => e.message
  | blankEquation => "Equation cannot be empty.".toList
  | unreadableBody => "There was an error parsing the body".toList
  | failed f => "Solver error: ".toList ++ f.message
  | solved _ | invalid _ => []

end Answer

/-- An answer and what is logged with it. -/
structure Reply where
  answer : Answer
  entries : List LogEntry
  deriving DecidableEq

def entry (severity : Severity) (message : List Char) : LogEntry :=
  ⟨severity, "service".toList, message⟩

def isBlankPoint (p : CodePoint) : Bool :=
  match p.toChar? with
  | some c => isBlank c
  | none => false

def upperPoint (p : CodePoint) : List CodePoint :=
  match p.toChar? with
  | some c => codePoints (upperChar c)
  | none => [p]

/-- An equation as it is solved: without the blanks around it and in upper case. -/
def normalized (ps : List CodePoint) : List CodePoint :=
  ((ps.dropWhile isBlankPoint).reverse.dropWhile isBlankPoint).reverse.flatMap upperPoint

/-- The text of an equation. Halves of surrogate pairs are in no term, and so stand for nothing
else that is in no term. -/
def equationText (ps : List CodePoint) : List Char := ps.map fun p => p.toChar?.getD '\uFFFD'

/-- The reply to an equation. -/
def solve (text : List CodePoint) : Reply :=
  let equation := normalized text
  if equation = [] then ⟨.blankEquation, []⟩
  else
    let solving := entry .info ("solving ".toList ++ quotePoints equation)
    match Report.ofEquation (equationText equation) with
    | .ok r => ⟨.solved r, [solving]⟩
    | .error (.equation e) =>
      ⟨.rejected e, [solving,
        entry .warning ("rejected ".toList ++ quotePoints equation ++ ": ".toList ++ e.message)]⟩
    | .error f =>
      ⟨.failed f, [solving, entry .error ("solver failure on ".toList ++ quotePoints equation)]⟩

/-- The refusal of a body for a problem with a value. -/
def refuse (p : BodyProblem) (v : Json) : Except NoticeFault Reply :=
  (noticeBytes p v).map fun _ => ⟨.invalid p, []⟩

/-- The reply to a body, of which at most `depth` containers within each other are read. -/
def reply (depth : Nat) (body : List UInt8) : Except NoticeFault Reply :=
  if body = [] then refuse .missingBody .null
  else
    match bodyValue depth body with
    | .error (.refused p) => refuse p (.object [])
    | .error .unreadable => .ok ⟨.unreadableBody, []⟩
    | .ok v =>
      match equationOf v with
      | .error (p, v) => refuse p v
      | .ok text => .ok (solve text)

end PolySolve.Service
