import PolySolve.Decimal.General
import PolySolve.Json.Value
import PolySolve.Text.Quoted

/-!
# Writing JSON

The text of a JSON value, on one line or with each item on a line of its own. Characters are
written as they are, but for the quote, the backslash and the control characters.

A text is written in pieces: what cannot be stored stops the writing at its piece.

* `flatten_leadIn`: how a piece is put in front does not change the text.
-/

namespace PolySolve.Json

open Text Decimal

/-- What stands between the items of arrays and objects. -/
structure Layout where
  comma : List Char
  /-- What stands between a name and its value. -/
  colon : List Char
  /-- The line end and the margin before an item at a depth. -/
  lineBreak : Nat → List Char

namespace Layout

/-- Everything on one line without blanks. -/
def dense : Layout where
  comma := [',']
  colon := [':']
  lineBreak _ := []

/-- Everything on one line. -/
def compact : Layout where
  comma := ", ".toList
  colon := ": ".toList
  lineBreak _ := []

/-- Each item on a line of its own, two columns further in than what holds it. -/
def indented : Layout where
  comma := [',']
  colon := ": ".toList
  lineBreak depth := '\n' :: List.replicate (2 * depth) ' '

end Layout

/-! ## Strings and numbers -/

def escapePoint (p : CodePoint) : List CodePoint :=
  if p.value = '"'.toNat then codePoints "\\\"".toList
  else if p.value = '\\'.toNat then codePoints "\\\\".toList
  else if p.value = 0x08 then codePoints "\\b".toList
  else if p.value = 0x0C then codePoints "\\f".toList
  else if p.value = '\n'.toNat then codePoints "\\n".toList
  else if p.value = '\r'.toNat then codePoints "\\r".toList
  else if p.value = '\t'.toNat then codePoints "\\t".toList
  else if p.value < 0x20 then codePoints ('\\' :: 'u' :: hexChars 4 p.value)
  else [p]

def stringPoints (s : List CodePoint) : List CodePoint :=
  codePoints ['"'] ++ s.flatMap escapePoint ++ codePoints ['"']

def floatChars : Binary64 → List Char
  | .nan => "NaN".toList
  | .infinite false => "Infinity".toList
  | .infinite true => "-Infinity".toList
  | x => generalChars x

/-! ## Pieces -/

/-- Put a text in front of pieces: a single piece takes it in, others follow it. -/
def leadIn (lead : List Char) : List (List CodePoint) → List (List CodePoint)
  | [p] => [codePoints lead ++ p]
  | ps => codePoints lead :: ps

mutual

/-- The pieces of a value at a depth. -/
def pieces (layout : Layout) (depth : Nat) : Json → List (List CodePoint)
  | null => [codePoints "null".toList]
  | bool true => [codePoints "true".toList]
  | bool false => [codePoints "false".toList]
  | int n => [codePoints (intChars n)]
  | float x => [codePoints (floatChars x)]
  | string s => [stringPoints s]
  | array [] => [codePoints "[]".toList]
  | array (v :: vs) =>
    leadIn ('[' :: layout.lineBreak (depth + 1)) (pieces layout (depth + 1) v) ++
      itemPieces layout (depth + 1) vs ++
      [codePoints (layout.lineBreak depth), codePoints [']']]
  | object [] => [codePoints "\x7b\x7d".toList]
  | object (m :: ms) =>
    codePoints ['\x7b'] :: codePoints (layout.lineBreak (depth + 1)) ::
      memberPieces layout (depth + 1) m ++ restPieces layout (depth + 1) ms ++
      [codePoints (layout.lineBreak depth), codePoints ['\x7d']]

/-- The pieces of the items after the first one. -/
def itemPieces (layout : Layout) (depth : Nat) : List Json → List (List CodePoint)
  | [] => []
  | v :: vs =>
    leadIn (layout.comma ++ layout.lineBreak depth) (pieces layout depth v) ++
      itemPieces layout depth vs

/-- The pieces of a member. -/
def memberPieces (layout : Layout) (depth : Nat) :
    List CodePoint × Json → List (List CodePoint)
  | (name, v) => stringPoints name :: codePoints layout.colon :: pieces layout depth v

/-- The pieces of the members after the first one. -/
def restPieces (layout : Layout) (depth : Nat) :
    List (List CodePoint × Json) → List (List CodePoint)
  | [] => []
  | m :: ms =>
    codePoints (layout.comma ++ layout.lineBreak depth) :: memberPieces layout depth m ++
      restPieces layout depth ms

end

/-- The text of a value. -/
def write (layout : Layout) (v : Json) : List CodePoint := (pieces layout 0 v).flatten

theorem flatten_leadIn (lead : List Char) (ps : List (List CodePoint)) :
    (leadIn lead ps).flatten = codePoints lead ++ ps.flatten := by
  unfold leadIn
  split <;> simp

end PolySolve.Json
