import PolySolve.Decimal.Reading
import PolySolve.Json.Value

/-!
# Reading JSON

The value that a JSON text stands for. Besides the standard's values there are the numbers `NaN`,
`Infinity` and `-Infinity`. A number with neither a fraction nor an exponent is an integer. The
escapes of both halves of a surrogate pair make up one character; a lone half stays as it is.

A text that is no JSON value is told with the first problem and its position.
-/

namespace PolySolve.Json

open Text

/-- What is wrong with a JSON text. -/
inductive Problem where
  | byteOrderMark
  | expectedValue
  | expectedName
  | expectedColon
  | expectedComma
  | extraData
  | unterminatedString
  | controlCharacter
  | invalidEscape
  | invalidUnicodeEscape
  deriving DecidableEq

namespace Problem

def message : Problem → List Char
  | byteOrderMark => "Unexpected UTF-8 BOM (decode using utf-8-sig)".toList
  | expectedValue => "Expecting value".toList
  | expectedName => "Expecting property name enclosed in double quotes".toList
  | expectedColon => "Expecting ':' delimiter".toList
  | expectedComma => "Expecting ',' delimiter".toList
  | extraData => "Extra data".toList
  | unterminatedString => "Unterminated string starting at".toList
  | controlCharacter => "Invalid control character at".toList
  | invalidEscape => "Invalid \\escape".toList
  | invalidUnicodeEscape => "Invalid \\uXXXX escape".toList

end Problem

/-- What holds other values. -/
inductive Container where
  | array
  | object
  deriving DecidableEq

namespace Container

def name : Container → List Char
  | array => "array".toList
  | object => "object".toList

end Container

/-- Why the reading of a text stops; `rest` is the text from the problem on. -/
inductive Stop where
  | malformed (problem : Problem) (rest : List Char)
  /-- An integer has more digits than are read. -/
  | longInteger (digits : Nat)
  /-- A container is within more containers than are read. -/
  | tooDeep (container : Container)
  deriving DecidableEq

/-- Integers with more digits are not read. -/
def maxIntegerDigits : Nat := 4300

/-- What reading the start of a text gives, with the text after it. -/
abbrev Scan (α : Type) := Except Stop (α × List Char)

def isSpace (c : Char) : Bool := c == ' ' || c == '\t' || c == '\n' || c == '\r'

def skipSpaces (cs : List Char) : List Char := cs.dropWhile isSpace

/-! ## Strings -/

def hexValue? (c : Char) : Option Nat :=
  if '0' ≤ c ∧ c ≤ '9' then some (c.toNat - '0'.toNat)
  else if 'a' ≤ c ∧ c ≤ 'f' then some (c.toNat - 'a'.toNat + 10)
  else if 'A' ≤ c ∧ c ≤ 'F' then some (c.toNat - 'A'.toNat + 10)
  else none

/-- The code point that four hexadecimal digits stand for. -/
def hexPoint? (a b c d : Char) : Option CodePoint := do
  let n := ((← hexValue? a) * 16 + (← hexValue? b)) * 256 + (← hexValue? c) * 16 + (← hexValue? d)
  if h : n < 0x110000 then some ⟨n, h⟩ else none

/-- The character that a backslash and a letter stand for. -/
def shortEscape? (c : Char) : Option Char :=
  if c = '"' ∨ c = '\\' ∨ c = '/' then some c
  else if c = 'b' then some '\x08'
  else if c = 'f' then some '\x0c'
  else if c = 'n' then some '\n'
  else if c = 'r' then some '\r'
  else if c = 't' then some '\t'
  else none

/-- The code points up to the closing quote, each escape for itself; `start` is the text from the
opening quote on. -/
def scanUnits (start : List Char) : List Char → Scan (List CodePoint)
  | [] => .error (.malformed .unterminatedString start)
  | c :: cs =>
    if c = '"' then .ok ([], cs)
    else if c = '\\' then
      match cs with
      | [] => .error (.malformed .unterminatedString start)
      | e :: r =>
        if e = 'u' then
          match r with
          | h₁ :: h₂ :: h₃ :: h₄ :: r' =>
            match hexPoint? h₁ h₂ h₃ h₄, r' with
            | some p, q :: r'' => (scanUnits start (q :: r'')).map fun (ps, rest) => (p :: ps, rest)
            | _, _ => .error (.malformed .invalidUnicodeEscape (e :: r))
          | _ => .error (.malformed .invalidUnicodeEscape (e :: r))
        else
          match shortEscape? e with
          | some p => (scanUnits start r).map fun (ps, rest) => (.ofChar p :: ps, rest)
          | none => .error (.malformed .invalidEscape (c :: cs))
    else if c.toNat < 0x20 then .error (.malformed .controlCharacter (c :: cs))
    else (scanUnits start cs).map fun (ps, rest) => (.ofChar c :: ps, rest)

/-- A string from its opening quote on. -/
def scanString (cs : List Char) : Scan (List CodePoint) :=
  (scanUnits cs (cs.drop 1)).map fun (ps, rest) => (joinPairs ps, rest)

/-! ## Numbers -/

def isAsciiDigit (c : Char) : Bool := '0' ≤ c && c ≤ '9'

/-- A number as it is written. -/
structure Numeral where
  negative : Bool
  whole : List Char
  fraction : List Char
  exponent : Option Int
  deriving DecidableEq

namespace Numeral

/-- Digits, of which only a single one may be zero at the front. -/
def scanWhole? (cs : List Char) : Option (List Char × List Char) :=
  match cs with
  | '0' :: r => some (['0'], r)
  | _ => if cs.takeWhile isAsciiDigit = [] then none
    else some (cs.takeWhile isAsciiDigit, cs.dropWhile isAsciiDigit)

/-- A point and digits; nothing is taken unless both are there. -/
def scanFraction (cs : List Char) : List Char × List Char :=
  match cs with
  | '.' :: r =>
    if r.takeWhile isAsciiDigit = [] then ([], cs)
    else (r.takeWhile isAsciiDigit, r.dropWhile isAsciiDigit)
  | _ => ([], cs)

/-- An `e`, an optional sign and digits; nothing is taken unless `e` and digits are there. -/
def scanExponent (cs : List Char) : Option Int × List Char :=
  match cs with
  | e :: r =>
    if e = 'e' ∨ e = 'E' then
      let (negative, ds) := match r with
        | '-' :: ds => (true, ds)
        | '+' :: ds => (false, ds)
        | _ => (false, r)
      if ds.takeWhile isAsciiDigit = [] then (none, cs)
      else
        let n : Int := digitsValue (ds.takeWhile isAsciiDigit)
        (some (if negative then -n else n), ds.dropWhile isAsciiDigit)
    else (none, cs)
  | [] => (none, cs)

def scan? (cs : List Char) : Option (Numeral × List Char) := do
  let (negative, r) := match cs with
    | '-' :: r => (true, r)
    | _ => (false, cs)
  let (whole, r) ← scanWhole? r
  let (fraction, r) := scanFraction r
  let (exponent, r) := scanExponent r
  return (⟨negative, whole, fraction, exponent⟩, r)

def value (n : Numeral) : Except Stop Json :=
  if n.fraction = [] ∧ n.exponent = none then
    if maxIntegerDigits < n.whole.length then .error (.longInteger n.whole.length)
    else
      let m : Int := digitsValue n.whole
      .ok (.int (if n.negative then -m else m))
  else
    .ok (.float ((Decimal.ofDigits n.whole n.fraction (n.exponent.getD 0)).toBinary64 n.negative))

end Numeral

/-! ## Values -/

/-- The words that stand for values. -/
def words : List (List Char × Json) := [
  ("null".toList, .null), ("true".toList, .bool true), ("false".toList, .bool false),
  ("NaN".toList, .float .nan), ("Infinity".toList, .float (.infinite false)),
  ("-Infinity".toList, .float (.infinite true))]

/-- A word or a number at the start of a text. -/
def scanPlain (cs : List Char) : Scan Json :=
  match words.find? fun (w, _) => w.isPrefixOf cs with
  | some (w, v) => .ok (v, cs.drop w.length)
  | none =>
    match Numeral.scan? cs with
    | some (n, rest) => n.value.map fun v => (v, rest)
    | none => .error (.malformed .expectedValue cs)

mutual

/-- The value at the start of a text, given bounds on the steps to take and on the containers
within each other. -/
def scanValue : Nat → Nat → List Char → Scan Json
  | 0, _, cs => .error (.malformed .expectedValue cs)
  | n + 1, depth, cs =>
    match cs with
    | '"' :: _ => (scanString cs).map fun (s, rest) => (.string s, rest)
    | '[' :: r =>
      match depth, skipSpaces r with
      | 0, _ => .error (.tooDeep .array)
      | _, ']' :: rest => .ok (.array [], rest)
      | depth + 1, r => (scanItems n depth r).map fun (items, rest) => (.array items, rest)
    | '{' :: r =>
      match depth, skipSpaces r with
      | 0, _ => .error (.tooDeep .object)
      | _, '}' :: rest => .ok (.object [], rest)
      | depth + 1, r =>
        (scanMembers n depth r).map fun (ms, rest) => (.object (Members.ofWritten ms), rest)
    | _ => scanPlain cs

/-- The items of an array, from the first one to the closing bracket. -/
def scanItems : Nat → Nat → List Char → Except Stop (List Json × List Char)
  | 0, _, cs => .error (.malformed .expectedValue cs)
  | n + 1, depth, cs => do
    let (v, r) ← scanValue n depth cs
    match skipSpaces r with
    | ']' :: rest => return ([v], rest)
    | ',' :: r =>
      let (vs, rest) ← scanItems n depth (skipSpaces r)
      return (v :: vs, rest)
    | r => .error (.malformed .expectedComma r)

/-- The members of an object, from the first name to the closing brace. -/
def scanMembers : Nat → Nat → List Char → Except Stop (Members × List Char)
  | 0, _, cs => .error (.malformed .expectedName cs)
  | n + 1, depth, cs => do
    match cs with
    | '"' :: _ =>
      let (name, r) ← scanString cs
      match skipSpaces r with
      | ':' :: r =>
        let (v, r) ← scanValue n depth (skipSpaces r)
        match skipSpaces r with
        | '}' :: rest => return ([(name, v)], rest)
        | ',' :: r =>
          let (ms, rest) ← scanMembers n depth (skipSpaces r)
          return ((name, v) :: ms, rest)
        | r => .error (.malformed .expectedComma r)
      | r => .error (.malformed .expectedColon r)
    | _ => .error (.malformed .expectedName cs)

end

/-- The value of a text with nothing but spaces around it, and with at most `depth` containers
within each other. -/
def scan (depth : Nat) (cs : List Char) : Except Stop Json :=
  match cs with
  | '\uFEFF' :: _ => .error (.malformed .byteOrderMark cs)
  | _ => do
    let (v, r) ← scanValue (2 * cs.length + 2) depth (skipSpaces cs)
    match skipSpaces r with
    | [] => return v
    | rest => .error (.malformed .extraData rest)

/-! ## Faults -/

/-- A place in a text; lines and columns count from one. -/
structure Position where
  offset : Nat
  line : Nat
  column : Nat
  deriving DecidableEq

namespace Position

/-- The place after a text. -/
def after (cs : List Char) : Position where
  offset := cs.length
  line := cs.count '\n' + 1
  column := (cs.reverse.takeWhile (· != '\n')).length + 1

end Position

/-- Why a text gives no JSON value. -/
inductive ReadFault where
  | malformed (problem : Problem) (position : Position)
  | longInteger (digits : Nat)
  | tooDeep (container : Container)
  deriving DecidableEq

namespace ReadFault

def message : ReadFault → List Char
  | malformed problem p =>
    problem.message ++ ": line ".toList ++ Decimal.intChars p.line ++ " column ".toList ++
      Decimal.intChars p.column ++ " (char ".toList ++ Decimal.intChars p.offset ++ [')']
  | longInteger digits =>
    "Exceeds the limit (".toList ++ Decimal.intChars maxIntegerDigits ++
      " digits) for integer string conversion: value has ".toList ++ Decimal.intChars digits ++
      " digits; use sys.set_int_max_str_digits() to increase the limit".toList
  | tooDeep container =>
    "maximum recursion depth exceeded while decoding a JSON ".toList ++ container.name ++
      " from a unicode string".toList

end ReadFault

/-- The value of a JSON text with at most `depth` containers within each other. -/
def ofText (depth : Nat) (cs : List Char) : Except ReadFault Json :=
  match scan depth cs with
  | .ok v => .ok v
  | .error (.malformed problem rest) =>
    .error (.malformed problem (.after (cs.take (cs.length - rest.length))))
  | .error (.longInteger digits) => .error (.longInteger digits)
  | .error (.tooDeep container) => .error (.tooDeep container)

end PolySolve.Json
