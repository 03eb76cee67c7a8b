import PolySolve.Text.CodePoint
import PolySolve.Text.Printable

/-!
# Quoted text

A text between quotes on one line: single quotes, or double ones if the text holds single quotes
and no double ones. The quote in use and backslashes are escaped, tabs and line ends have short
escapes, and characters that are not printable are written by their code points in 2, 4 or 8
hexadecimal digits.
-/

namespace PolySolve.Text

/-- `width` hexadecimal digits, the last ones of the number. -/
def hexChars (width n : Nat) : List Char :=
  (List.range width).reverse.map fun i => Nat.digitChar (n / Nat.pow 16 i % 16)

def quoteMark (ps : List CodePoint) : Char :=
  let has (c : Char) := ps.any fun p => p.value == c.toNat
  if has '\'' && !has '"' then '"' else '\''

def escapePoint (mark : Char) (p : CodePoint) : List Char :=
  if p.value = mark.toNat || p.value = '\\'.toNat then ['\\', Char.ofNat p.value]
  else if p.value = '\t'.toNat then ['\\', 't']
  else if p.value = '\n'.toNat then ['\\', 'n']
  else if p.value = '\r'.toNat then ['\\', 'r']
  else if isPrintable p.value then [Char.ofNat p.value]
  else if p.value < 0x100 then '\\' :: 'x' :: hexChars 2 p.value
  else if p.value < 0x10000 then '\\' :: 'u' :: hexChars 4 p.value
  else '\\' :: 'U' :: hexChars 8 p.value

def quotePoints (ps : List CodePoint) : List Char :=
  let mark := quoteMark ps
  mark :: ps.flatMap (escapePoint mark) ++ [mark]

def quote (cs : List Char) : List Char := quotePoints (codePoints cs)

end PolySolve.Text
