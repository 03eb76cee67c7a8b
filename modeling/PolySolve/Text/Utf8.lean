import PolySolve.Text.Quoted

/-!
# UTF-8

The bytes of a text and the text of bytes. A character takes one to four bytes: its first byte
tells how many follow and which values the second may have, so that no character has two forms and
no surrogate has one. Reading stops at the first byte by which no text can go on; writing stops at
the first run of surrogates.

* `encode?_codePoints`: every text has bytes.
-/

namespace PolySolve.Text.Utf8

/-! ## Writing -/

/-- A byte after the first one, with the last six bits of a number. -/
def tailByte (n : Nat) : UInt8 := .ofNat (0x80 + n % 0x40)

/-- The bytes of a code point. -/
def pointBytes (p : CodePoint) : List UInt8 :=
  let n := p.value
  if n < 0x80 then [.ofNat n]
  else if n < 0x800 then [.ofNat (0xC0 + n / 0x40), tailByte n]
  else if n < 0x10000 then [.ofNat (0xE0 + n / 0x1000), tailByte (n / 0x40), tailByte n]
  else [.ofNat (0xF0 + n / 0x40000), tailByte (n / 0x1000), tailByte (n / 0x40), tailByte n]

def encode (cs : List Char) : List UInt8 := (codePoints cs).flatMap pointBytes

/-- The first run of surrogates in a text. -/
structure EncodeFault where
  position : Nat
  run : List CodePoint
  deriving DecidableEq

/-- The bytes of code points without surrogates. -/
def encode? (ps : List CodePoint) : Except EncodeFault (List UInt8) :=
  match ps.findIdx? (·.isSurrogate) with
  | none => .ok (ps.flatMap pointBytes)
  | some i => .error ⟨i, (ps.drop i).takeWhile (·.isSurrogate)⟩

theorem encode?_codePoints (cs : List Char) : encode? (codePoints cs) = .ok (encode cs) := by
  have h : (codePoints cs).findIdx? (·.isSurrogate) = none := by
    rw [List.findIdx?_eq_none_iff]
    intro p hp
    obtain ⟨c, -, rfl⟩ := List.mem_map.1 hp
    exact CodePoint.isSurrogate_ofChar c
  rw [encode?, h, encode]

/-! ## Reading -/

/-- Why bytes are not the text of a character. -/
inductive DecodeProblem where
  | invalidStart
  | invalidContinuation
  | unexpectedEnd
  deriving DecidableEq

/-- What a first byte tells: how many bytes follow, the least and the greatest value of the second
byte, and the first bits of the character. -/
structure Lead where
  tails : Nat
  low : Nat
  high : Nat
  bits : Nat
  deriving DecidableEq

def lead? (b : Nat) : Option Lead :=
  if b < 0x80 then some ⟨0, 0x80, 0xBF, b⟩
  else if 0xC2 ≤ b ∧ b ≤ 0xDF then some ⟨1, 0x80, 0xBF, b - 0xC0⟩
  else if b = 0xE0 then some ⟨2, 0xA0, 0xBF, 0⟩
  else if b = 0xED then some ⟨2, 0x80, 0x9F, b - 0xE0⟩
  else if 0xE1 ≤ b ∧ b ≤ 0xEF then some ⟨2, 0x80, 0xBF, b - 0xE0⟩
  else if b = 0xF0 then some ⟨3, 0x90, 0xBF, 0⟩
  else if 0xF1 ≤ b ∧ b ≤ 0xF3 then some ⟨3, 0x80, 0xBF, b - 0xF0⟩
  else if b = 0xF4 then some ⟨3, 0x80, 0x8F, b - 0xF0⟩
  else none

/-- Read the bytes after the first one, of which `count` are due and `done` bytes of the character
are read. A problem is told with the number of bytes that it takes in. -/
def readTails : (count low high bits done : Nat) → List UInt8 →
    Except (DecodeProblem × Nat) (Nat × List UInt8)
  | 0, _, _, bits, _, bs => .ok (bits, bs)
  | _ + 1, _, _, _, done, [] => .error (.unexpectedEnd, done)
  | count + 1, low, high, bits, done, b :: bs =>
    if low ≤ b.toNat ∧ b.toNat ≤ high then
      readTails count 0x80 0xBF (bits * 0x40 + (b.toNat - 0x80)) (done + 1) bs
    else .error (.invalidContinuation, done)

/-- Read the character that starts with a byte. -/
def readChar (b : UInt8) (bs : List UInt8) : Except (DecodeProblem × Nat) (Char × List UInt8) :=
  match lead? b.toNat with
  | none => .error (.invalidStart, 1)
  | some l => (readTails l.tails l.low l.high l.bits 1 bs).map fun (n, rest) => (.ofNat n, rest)

theorem length_le_of_readTails {count low high bits done n : Nat} {bs rest : List UInt8}
    (h : readTails count low high bits done bs = .ok (n, rest)) : rest.length ≤ bs.length := by
  induction count generalizing low high bits done bs with
  | zero =>
    obtain ⟨-, rfl⟩ := Prod.mk.inj (Except.ok.inj h)
    exact Nat.le_refl _
  | succ count ih =>
    cases bs with
    | nil => contradiction
    | cons b bs =>
      rw [readTails] at h
      split at h
      · exact Nat.le_succ_of_le (ih h)
      · contradiction

theorem length_le_of_readChar {b : UInt8} {bs rest : List UInt8} {c : Char}
    (h : readChar b bs = .ok (c, rest)) : rest.length ≤ bs.length := by
  unfold readChar at h
  split at h
  · contradiction
  · cases ht : readTails _ _ _ _ 1 bs with
    | error e => rw [ht] at h; contradiction
    | ok r =>
      rw [ht] at h
      obtain ⟨-, rfl⟩ := Prod.mk.inj (Except.ok.inj h)
      exact length_le_of_readTails ht

/-- The first bytes that are not the text of a character. -/
structure DecodeFault where
  problem : DecodeProblem
  position : Nat
  run : List UInt8
  deriving DecidableEq

/-- The text of bytes, or why it ends: the problem, how many bytes it takes in, and the bytes from
there on. -/
def decodeChars (bs : List UInt8) : Except (DecodeProblem × Nat × List UInt8) (List Char) :=
  match bs with
  | [] => .ok []
  | b :: bs =>
    match _h : readChar b bs with
    | .error (problem, length) => .error (problem, length, b :: bs)
    | .ok (c, rest) => (decodeChars rest).map (c :: ·)
termination_by bs.length
decreasing_by exact Nat.lt_succ_of_le (length_le_of_readChar _h)

/-- The text of bytes. -/
def decode (bs : List UInt8) : Except DecodeFault (List Char) :=
  (decodeChars bs).mapError fun (problem, length, rest) =>
    ⟨problem, bs.length - rest.length, rest.take length⟩

/-- A byte by its two hexadecimal digits. -/
def hexByte (b : UInt8) : List Char := '\\' :: 'x' :: hexChars 2 b.toNat

/-- The text of bytes, with hexadecimal digits for the bytes that are in no character. -/
def display (bs : List UInt8) : List Char :=
  match bs with
  | [] => []
  | b :: bs =>
    match _h : readChar b bs with
    | .error _ => hexByte b ++ display bs
    | .ok (c, rest) => c :: display rest
termination_by bs.length
decreasing_by
  · exact Nat.lt_succ_self _
  · exact Nat.lt_succ_of_le (length_le_of_readChar _h)

/-! ## Messages -/

namespace DecodeProblem

def message : DecodeProblem → List Char
  | invalidStart => "invalid start byte".toList
  | invalidContinuation => "invalid continuation byte".toList
  | unexpectedEnd => "unexpected end of data".toList

end DecodeProblem

/-- The positions of a run, as in `4` or `4-6`. -/
def runChars (position length : Nat) : List Char :=
  Nat.toDigits 10 position ++
    if length = 1 then [] else '-' :: Nat.toDigits 10 (position + length - 1)

namespace DecodeFault

def message (f : DecodeFault) : List Char :=
  let what := match f.run with
    | [b] => "byte 0x".toList ++ hexChars 2 b.toNat
    | _ => "bytes".toList
  "'utf-8' codec can't decode ".toList ++ what ++ " in position ".toList ++
    runChars f.position f.run.length ++ ": ".toList ++ f.problem.message

end DecodeFault

namespace EncodeFault

def message (f : EncodeFault) : List Char :=
  let what := match f.run with
    | [p] => "character '\\u".toList ++ hexChars 4 p.value ++ ['\'']
    | _ => "characters".toList
  "'utf-8' codec can't encode ".toList ++ what ++ " in position ".toList ++
    runChars f.position f.run.length ++ ": surrogates not allowed".toList

end EncodeFault

end PolySolve.Text.Utf8
