import PolySolve.Text.DecimalDigit
import PolySolve.Text.Quoted

/-!
# Command-line arguments

What is asked for on the command line: help, or the solution of an equation and a plot of it, both
optional. A long option may be cut short as long as it is the only one that goes on so. An argument
that starts with a dash is a value nevertheless if it is a dash alone or a negative number, or has
a space in it and starts with no option; after `--` all arguments are values.

* `read_value`: a single argument that is no option is the equation.
-/

namespace PolySolve.CommandLine

open Text

/-- What is wrong with the arguments. -/
inductive UsageError where
  | ambiguousOption (argument : List Char)
  /-- The help option takes no value, but has one. -/
  | unusedValue (value : List Char)
  | missingFile
  | unrecognized (arguments : List (List Char))
  deriving DecidableEq

namespace UsageError

def message : UsageError → List Char
  | ambiguousOption argument =>
    "ambiguous option: ".toList ++ argument ++ " could match --help, --plot".toList
  | unusedValue value =>
    "argument -h/--help: ignored explicit argument ".toList ++ quote value
  | missingFile => "argument --plot: expected one argument".toList
  | unrecognized arguments =>
    "unrecognized arguments: ".toList ++ [' '].intercalate arguments

end UsageError

def usage : List Char := "usage: computor [-h] [--plot FILE] [equation]\n".toList

def helpText : List Char := usage ++ ("
Reduce and solve a polynomial equation of degree 2 or lower.

positional arguments:
  equation     e.g. \"5 * X^0 + 4 * X^1 - 9.3 * X^2 = 1 * X^0\"

options:
  -h, --help   show this help message and exit
  --plot FILE  save a graph of the reduced polynomial to FILE
").toList

namespace UsageError

/-- The usage and the error, as they are shown. -/
def report (e : UsageError) : List Char :=
  usage ++ "computor: error: ".toList ++ e.message ++ ['\n']

end UsageError

/-! ## Single arguments -/

/-- What a single argument is. -/
inductive Item where
  | value (text : List Char)
  /-- Two dashes, after which there are only values. -/
  | separator
  /-- The help option, perhaps with text in the same argument that it has no use for. -/
  | help (surplus : Option (List Char))
  | plot (file : Option (List Char))
  | unknown (text : List Char)
  deriving DecidableEq

/-- A minus sign and a number with a digit at its end, perhaps before a line end. -/
def isNegativeNumber (cs : List Char) : Bool :=
  match cs with
  | '-' :: r =>
    let ends (rest : List Char) : Bool :=
      rest.takeWhile isDigit != [] && ["".toList, "\n".toList].contains (rest.dropWhile isDigit)
    match r.dropWhile isDigit with
    | '.' :: rest => ends rest
    | _ => ends r
  | _ => false

/-- An argument with a dash in front that is no option of this program. -/
def Item.ofOther (cs : List Char) : Item :=
  if isNegativeNumber cs || cs.contains ' ' then .value cs else .unknown cs

/-- What stands after the first equals sign. -/
def attachedValue (cs : List Char) : Option (List Char) :=
  match cs.dropWhile (· != '=') with
  | _ :: value => some value
  | [] => none

/-- The text after the letter of the help option that is of no use: the letter may be repeated. -/
def surplus : List Char → Option (List Char)
  | ['h'] => none
  | 'h' :: r => surplus r
  | cs => some cs

/-- What a single argument is, but for two dashes alone. -/
def Item.ofArgument (cs : List Char) : Except UsageError Item :=
  match cs with
  | '-' :: '-' :: _ =>
    let name := cs.takeWhile (· != '=')
    match name.isPrefixOf "--help".toList, name.isPrefixOf "--plot".toList with
    | true, true => .error (.ambiguousOption cs)
    | true, false => .ok (.help (attachedValue cs))
    | false, true => .ok (.plot (attachedValue cs))
    | false, false => .ok (.ofOther cs)
  | ['-', 'h'] => .ok (.help none)
  | '-' :: 'h' :: '=' :: r => .ok (.help (surplus r))
  | '-' :: 'h' :: r => .ok (.help (surplus r))
  | '-' :: _ :: _ => .ok (.ofOther cs)
  | _ => .ok (.value cs)

/-- What each of some arguments is. -/
def items : List (List Char) → Except UsageError (List Item)
  | [] => .ok []
  | a :: as =>
    if a = "--".toList then .ok (.separator :: as.map .value)
    else do return (← Item.ofArgument a) :: (← items as)

/-! ## All arguments -/

/-- What the command line asks for. -/
inductive Request where
  | help
  | solve (equation file : Option (List Char))
  deriving DecidableEq

/-- The arguments read so far. -/
structure Reading where
  equation : Option (List Char)
  file : Option (List Char)
  /-- The last argument was the equation. -/
  justGiven : Bool
  extras : List (List Char)
  deriving DecidableEq

namespace Reading

def start : Reading := ⟨none, none, false, []⟩

/-- The first value is the equation. -/
def addValue (r : Reading) (text : List Char) : Reading :=
  match r.equation with
  | none => { r with equation := some text, justGiven := true }
  | some _ => { r with justGiven := false, extras := r.extras ++ [text] }

/-- Two dashes belong to the equation, in front of it or behind it. -/
def addSeparator (r : Reading) : Reading :=
  if r.equation = none ∨ r.justGiven then { r with justGiven := false }
  else { r with extras := r.extras ++ ["--".toList] }

/-- The last file counts. Two dashes stand for no file. -/
def addFile (r : Reading) (file : List Char) : Reading :=
  { r with file := if file = "--".toList then none else some file, justGiven := false }

def addUnknown (r : Reading) (text : List Char) : Reading :=
  { r with justGiven := false, extras := r.extras ++ [text] }

end Reading

/-- What the items ask for, given those read so far. -/
def request (r : Reading) : List Item → Except UsageError Request
  | [] => if r.extras = [] then .ok (.solve r.equation r.file) else .error (.unrecognized r.extras)
  | .value text :: rest => request (r.addValue text) rest
  | .separator :: rest => request r.addSeparator rest
  | .help none :: _ => .ok .help
  | .help (some value) :: _ => .error (.unusedValue value)
  | .plot (some file) :: rest => request (r.addFile file) rest
  | .plot none :: .value file :: rest => request (r.addFile file) rest
  | .plot none :: _ => .error .missingFile
  | .unknown text :: rest => request (r.addUnknown text) rest

/-- What the command line asks for. -/
def read (arguments : List (List Char)) : Except UsageError Request := do
  request .start (← items arguments)

theorem read_value {a : List Char} (h : ∀ r, a ≠ '-' :: r) :
    read [a] = .ok (.solve (some a) none) := by
  have hs : a ≠ "--".toList := h ['-']
  have hi : Item.ofArgument a = .ok (.value a) := by
    unfold Item.ofArgument
    split
    · exact absurd rfl (h _)
    · exact absurd rfl (h _)
    · exact absurd rfl (h _)
    · exact absurd rfl (h _)
    · exact absurd rfl (h _)
    · rfl
  have hr : items [a] = .ok [.value a] := by
    rw [items, if_neg hs, hi]; rfl
  rw [read, hr]; rfl

end PolySolve.CommandLine
