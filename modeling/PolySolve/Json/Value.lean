import PolySolve.Binary64.Basic
import PolySolve.Text.CodePoint

/-!
# JSON values

JSON values and the members of objects. Members keep the order in which their names first came;
a name that comes again changes the value in its place.
-/

namespace PolySolve

open Text

inductive Json where
  | null
  | bool (b : Bool)
  | int (n : Int)
  | float (x : Binary64)
  | string (s : List CodePoint)
  | array (items : List Json)
  | object (members : List (List CodePoint × Json))

namespace Json

/-- The string of a text. -/
def text (cs : List Char) : Json := string (codePoints cs)

abbrev Members := List (List CodePoint × Json)

namespace Members

/-- The value of a member. -/
def lookup (name : List CodePoint) : Members → Option Json
  | [] => none
  | (n, v) :: ms => if n = name then some v else lookup name ms

/-- Set a member: in its place if the object has it, else after the others. -/
def put (name : List CodePoint) (value : Json) : Members → Members
  | [] => [(name, value)]
  | (n, v) :: ms => if n = name then (n, value) :: ms else (n, v) :: put name value ms

/-- Set all the members of another object. -/
def override (ms others : Members) : Members :=
  others.foldl (fun ms (name, value) => ms.put name value) ms

/-- The members of an object as it is written, names that come again included. -/
def ofWritten (ms : Members) : Members := override [] ms

end Members

/-- Anything but null, false, zero and what is empty. -/
def isTruthy : Json → Bool
  | null => false
  | bool b => b
  | int n => n != 0
  | float x => !x.isZero
  | string s => s != []
  | array items => !items.isEmpty
  | object members => !members.isEmpty

end Json

end PolySolve
