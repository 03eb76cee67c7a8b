import PolySolve.Json.Reader
import PolySolve.Json.Writer
import PolySolve.Text.Encoding

/-!
# Bodies of requests

What is read from the body of a request: a JSON value, and the equation that it holds as an object.
A body without an equation is refused with a notice that tells the problem and shows the value in
question. A notice must have a JSON text: it cannot show infinite numbers or halves of surrogate
pairs.

* `equationOf_object`: an object with an equation that is a text is not refused.
-/

namespace PolySolve.Service

open Text

/-- What is wrong with the body of a request. -/
inductive BodyProblem where
  | missingBody
  | missingEquation
  | equationNotText
  | notObject
  | malformed (offset : Nat)
  deriving DecidableEq

namespace BodyProblem

def kind : BodyProblem → List Char
  | missingBody | missingEquation => "missing".toList
  | equationNotText => "string_type".toList
  | notObject => "model_attributes_type".toList
  | malformed _ => "json_invalid".toList

def message : BodyProblem → List Char
  | missingBody | missingEquation => "Field required".toList
  | equationNotText => "Input should be a valid string".toList
  | notObject =>
    "Input should be a valid dictionary or object to extract fields from".toList
  | malformed _ => "JSON decode error".toList

/-- The way to the problem: names, and an offset in a text. -/
def location : BodyProblem → List Json
  | missingBody | notObject => [.text "body".toList]
  | missingEquation | equationNotText => [.text "body".toList, .text "equation".toList]
  | malformed offset => [.text "body".toList, .int offset]

end BodyProblem

/-! ## Reading -/

/-- Why a body has no value to look for an equation in. -/
inductive BodyFault where
  | refused (p : BodyProblem)
  /-- The bytes are no text, or the text holds what is not read. -/
  | unreadable
  deriving DecidableEq

/-- The value of a body that is not empty, in which at most `depth` containers within each other are
read. -/
def bodyValue (depth : Nat) (body : List UInt8) : Except BodyFault Json :=
  match (Encoding.detect body).decode body with
  | none => .error .unreadable
  | some cs =>
    match Json.ofText depth cs with
    | .ok v => .ok v
    | .error (.malformed _ position) => .error (.refused (.malformed position.offset))
    | .error _ => .error .unreadable

def equationName : List CodePoint := codePoints "equation".toList

/-- The equation in the value of a body, or what is wrong with which value. -/
def equationOf : Json → Except (BodyProblem × Json) (List CodePoint)
  | .object ms =>
    match Json.Members.lookup equationName ms with
    | none => .error (.missingEquation, .object ms)
    | some (.string s) => .ok s
    | some v => .error (.equationNotText, v)
  | v => .error (.notObject, v)

theorem equationOf_object {ms : Json.Members} {s : List CodePoint}
    (h : ms.lookup equationName = some (.string s)) : equationOf (.object ms) = .ok s := by
  rw [equationOf, h]

/-! ## Notices -/

/-- Members with such a name are not shown. -/
def isHidden (name : List CodePoint) : Bool := (codePoints "_sa".toList).isPrefixOf name

mutual

/-- A value as it is shown. -/
def shown : Json → Json
  | .array items => .array (shownItems items)
  | .object members => .object (shownMembers members)
  | v => v

def shownItems : List Json → List Json
  | [] => []
  | v :: vs => shown v :: shownItems vs

def shownMembers : List (List CodePoint × Json) → List (List CodePoint × Json)
  | [] => []
  | (name, v) :: ms => if isHidden name then shownMembers ms else (name, shown v) :: shownMembers ms

end

mutual

/-- All numbers in a value are finite. -/
def isFinite : Json → Bool
  | .float x => x.isFinite
  | .array items => areFinite items
  | .object members => haveFinite members
  | _ => true

def areFinite : List Json → Bool
  | [] => true
  | v :: vs => isFinite v && areFinite vs

def haveFinite : List (List CodePoint × Json) → Bool
  | [] => true
  | (_, v) :: ms => isFinite v && haveFinite ms

end

/-- Why a notice cannot be sent. -/
inductive NoticeFault where
  | notFinite
  | unencodable (f : Utf8.EncodeFault)
  deriving DecidableEq

namespace NoticeFault

def message : NoticeFault → List Char
  | notFinite => "Out of range float values are not JSON compliant".toList
  | unencodable f => f.message

end NoticeFault

/-- The notice of a problem with a value. -/
def notice (p : BodyProblem) (v : Json) : Json :=
  let member (name : String) (value : Json) := (codePoints name.toList, value)
  .object [member "detail" (.array [.object [
    member "type" (.text p.kind),
    member "loc" (.array p.location),
    member "msg" (.text p.message),
    member "input" (shown v)]])]

/-- The bytes of a notice. -/
def noticeBytes (p : BodyProblem) (v : Json) : Except NoticeFault (List UInt8) :=
  if isFinite (shown v) then
    (Utf8.encode? ((notice p v).write .dense)).mapError .unencodable
  else .error .notFinite

end PolySolve.Service
