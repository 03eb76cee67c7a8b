import PolySolve.Text.Utf8

/-!
# Encodings

The text of bytes in one of the encodings of Unicode. Which one it is shows in the zeros among the
first bytes, as a text in question starts with ASCII characters.
-/

namespace PolySolve.Text

/-- Which byte of a number comes first. -/
inductive ByteOrder where
  | big
  | little
  deriving DecidableEq

inductive Encoding where
  | utf8
  | utf16 (order : ByteOrder)
  | utf32 (order : ByteOrder)
  deriving DecidableEq

namespace ByteOrder

/-- The number that some bytes stand for. -/
def value (order : ByteOrder) (bs : List UInt8) : Nat :=
  let ordered := match order with
    | big => bs
    | little => bs.reverse
  ordered.foldl (fun n b => 0x100 * n + b.toNat) 0

end ByteOrder

namespace Encoding

def detect : List UInt8 → Encoding
  | a :: b :: c :: d :: _ =>
    if a = 0 then if b = 0 then .utf32 .big else .utf16 .big
    else if b = 0 then if c = 0 ∧ d = 0 then .utf32 .little else .utf16 .little
    else .utf8
  | [a, b] => if a = 0 then .utf16 .big else if b = 0 then .utf16 .little else .utf8
  | _ => .utf8

/-- The numbers that two bytes each stand for. -/
def pairs (order : ByteOrder) : List UInt8 → Option (List Nat)
  | [] => some []
  | a :: b :: bs => (pairs order bs).map (order.value [a, b] :: ·)
  | _ => none

/-- The numbers that four bytes each stand for. -/
def quadruples (order : ByteOrder) : List UInt8 → Option (List Nat)
  | [] => some []
  | a :: b :: c :: d :: bs => (quadruples order bs).map (order.value [a, b, c, d] :: ·)
  | _ => none

def point? (n : Nat) : Option CodePoint := if h : n < 0x110000 then some ⟨n, h⟩ else none

/-- A half of a surrogate pair that stands alone is replaced. -/
def character (p : CodePoint) : Char := p.toChar?.getD '\uFFFD'

/-- The text of bytes, without the byte order mark that UTF-8 may start with. -/
def decode (e : Encoding) (bs : List UInt8) : Option (List Char) :=
  match e with
  | utf8 =>
    match Utf8.decode bs with
    | .ok ('\uFEFF' :: cs) => some cs
    | .ok cs => some cs
    | .error _ => none
  | utf16 order => do
    let units ← pairs order bs
    return (joinPairs (← units.mapM point?)).map character
  | utf32 order => do
    let units ← quadruples order bs
    return (← units.mapM point?).map character

end Encoding

end PolySolve.Text
