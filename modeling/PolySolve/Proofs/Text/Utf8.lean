import PolySolve.Text.Utf8

/-!
# Texts come back from their bytes

Code points without surrogates are the code points of a text, and the bytes of
a text are read as that text. No other bytes are read as a text.

* `codePoints_chars`: the text of code points;
* `readChar_pointBytes`, `pointBytes_of_readChar`: one character;
* `decode_encode`, `decode_eq_ok_iff`: a whole text.
-/

namespace PolySolve.Text

/-! ## Code points -/

/-- No code point is half of a surrogate pair. -/
def Unpaired (ps : List CodePoint) : Prop := ∀ p ∈ ps, p.isSurrogate = false

/-- The characters of code points; for a surrogate there is none to choose. -/
def chars (ps : List CodePoint) : List Char := ps.map fun p => Char.ofNat p.value

theorem chars_append (ps qs : List CodePoint) : chars (ps ++ qs) = chars ps ++ chars qs :=
  List.map_append

theorem unpaired_append {ps qs : List CodePoint} :
    Unpaired (ps ++ qs) ↔ Unpaired ps ∧ Unpaired qs := List.forall_mem_append

theorem unpaired_codePoints (cs : List Char) : Unpaired (codePoints cs) := fun p hp => by
  obtain ⟨c, -, rfl⟩ := List.mem_map.1 hp
  exact CodePoint.isSurrogate_ofChar c

theorem codePoints_append (cs ds : List Char) :
    codePoints (cs ++ ds) = codePoints cs ++ codePoints ds := List.map_append

theorem chars_codePoints (cs : List Char) : chars (codePoints cs) = cs := by
  have hchar : (fun p : CodePoint => Char.ofNat p.value) ∘ CodePoint.ofChar = id := by
    funext c
    exact Char.ofNat_toNat c
  rw [chars, codePoints, List.map_map, hchar, List.map_id]

theorem ofChar_ofNat {p : CodePoint} (h : p.isSurrogate = false) :
    CodePoint.ofChar (Char.ofNat p.value) = p := by
  obtain ⟨n, hn⟩ := p
  have hvalid : n.isValidChar := by
    simp only [CodePoint.isSurrogate, Bool.and_eq_false_iff, decide_eq_false_iff_not] at h
    show n < 0xD800 ∨ 0xDFFF < n ∧ n < 0x110000
    omega
  have hvalue : (Char.ofNat n).toNat = n := by
    rw [Char.ofNat, dif_pos hvalid]
    rfl
  show CodePoint.mk (Char.ofNat n).toNat _ = _
  simp only [hvalue]

theorem codePoints_chars {ps : List CodePoint} (h : Unpaired ps) : codePoints (chars ps) = ps := by
  induction ps with
  | nil => rfl
  | cons p ps ih =>
    obtain ⟨hp, hps⟩ := List.forall_mem_cons.1 h
    show CodePoint.ofChar (Char.ofNat p.value) :: codePoints (chars ps) = p :: ps
    rw [ofChar_ofNat hp, ih hps]

namespace Utf8

/-! ## One character -/

/-- The number of a character. -/
theorem toNat_lt_or (c : Char) : c.toNat < 0xD800 ∨ 0xDFFF < c.toNat ∧ c.toNat < 0x110000 := c.valid

theorem toNat_ofNat_byte {n : Nat} (h : n < 256) : (UInt8.ofNat n).toNat = n :=
  Nat.mod_eq_of_lt h

theorem toNat_tailByte (n : Nat) : (tailByte n).toNat = 0x80 + n % 0x40 :=
  toNat_ofNat_byte (by omega)

/-- A byte after the second one can have any of its values. -/
theorem readTails_tailByte (count bits done n : Nat) (bs : List UInt8) :
    readTails (count + 1) 0x80 0xBF bits done (tailByte n :: bs) =
      readTails count 0x80 0xBF (bits * 0x40 + n % 0x40) (done + 1) bs := by
  have hlt : n % 0x40 < 0x40 := Nat.mod_lt n (by decide)
  have hbits : 0x80 + n % 0x40 - 0x80 = n % 0x40 := Nat.add_sub_cancel_left _ _
  rw [readTails, toNat_tailByte, if_pos (by omega), hbits]

/-- The second byte has the values that the first one leaves it. -/
theorem readTails_second {count low high bits done n : Nat} (bs : List UInt8)
    (hlow : low ≤ 0x80 + n % 0x40) (hhigh : 0x80 + n % 0x40 ≤ high) :
    readTails (count + 1) low high bits done (tailByte n :: bs) =
      readTails count 0x80 0xBF (bits * 0x40 + n % 0x40) (done + 1) bs := by
  have hbits : 0x80 + n % 0x40 - 0x80 = n % 0x40 := Nat.add_sub_cancel_left _ _
  rw [readTails, toNat_tailByte, if_pos ⟨hlow, hhigh⟩, hbits]

theorem readChar_of_lead {b : UInt8} {l : Lead} (hl : lead? b.toNat = some l) (bs : List UInt8) :
    readChar b bs =
      (readTails l.tails l.low l.high l.bits 1 bs).map fun (n, rest) => (.ofNat n, rest) := by
  rw [readChar, hl]

/-- The second of three bytes must not make a shorter form or a surrogate. -/
theorem exists_lead_of_three {n : Nat} (hlow : 0x800 ≤ n) (hhigh : n < 0x10000)
    (hvalid : n < 0xD800 ∨ 0xDFFF < n) :
    ∃ low high, lead? (0xE0 + n / 0x1000) = some ⟨2, low, high, n / 0x1000⟩ ∧
      low ≤ 0x80 + n / 0x40 % 0x40 ∧ 0x80 + n / 0x40 % 0x40 ≤ high := by
  rw [lead?, if_neg (by omega), if_neg (by omega)]
  by_cases h0 : n / 0x1000 = 0
  · rw [if_pos (by omega), h0]
    exact ⟨_, _, rfl, by omega, by omega⟩
  rw [if_neg (by omega)]
  by_cases hd : n / 0x1000 = 13
  · rw [if_pos (by omega), Nat.add_sub_cancel_left]
    exact ⟨_, _, rfl, by omega, by omega⟩
  · rw [if_neg (by omega), if_pos (by omega), Nat.add_sub_cancel_left]
    exact ⟨_, _, rfl, by omega, by omega⟩

/-- The second of four bytes must not make a shorter form or leave the range. -/
theorem exists_lead_of_four {n : Nat} (hlow : 0x10000 ≤ n) (hhigh : n < 0x110000) :
    ∃ low high, lead? (0xF0 + n / 0x40000) = some ⟨3, low, high, n / 0x40000⟩ ∧
      low ≤ 0x80 + n / 0x1000 % 0x40 ∧ 0x80 + n / 0x1000 % 0x40 ≤ high := by
  rw [lead?, if_neg (by omega), if_neg (by omega), if_neg (by omega), if_neg (by omega),
    if_neg (by omega)]
  by_cases h0 : n / 0x40000 = 0
  · rw [if_pos (by omega), h0]
    exact ⟨_, _, rfl, by omega, by omega⟩
  rw [if_neg (by omega)]
  by_cases hd : n / 0x40000 = 4
  · rw [if_neg (by omega), if_pos (by omega), Nat.add_sub_cancel_left]
    exact ⟨_, _, rfl, by omega, by omega⟩
  · rw [if_pos (by omega), Nat.add_sub_cancel_left]
    exact ⟨_, _, rfl, by omega, by omega⟩

section

variable {n : Nat} (rest : List UInt8)

theorem readChar_one (h : n < 0x80) : readChar (.ofNat n) rest = .ok (.ofNat n, rest) := by
  have hb : (UInt8.ofNat n).toNat = n := toNat_ofNat_byte (by omega)
  have hl : lead? (UInt8.ofNat n).toNat = some ⟨0, 0x80, 0xBF, n⟩ := by
    rw [hb, lead?, if_pos h]
  rw [readChar_of_lead hl]
  rfl

theorem readChar_two (hlow : 0x80 ≤ n) (hhigh : n < 0x800) :
    readChar (.ofNat (0xC0 + n / 0x40)) (tailByte n :: rest) = .ok (.ofNat n, rest) := by
  have hb : (UInt8.ofNat (0xC0 + n / 0x40)).toNat = 0xC0 + n / 0x40 := toNat_ofNat_byte (by omega)
  have hl : lead? (UInt8.ofNat (0xC0 + n / 0x40)).toNat = some ⟨1, 0x80, 0xBF, n / 0x40⟩ := by
    rw [hb, lead?, if_neg (by omega), if_pos (by omega), Nat.add_sub_cancel_left]
  have hn : n / 0x40 * 0x40 + n % 0x40 = n := Nat.div_add_mod' n 0x40
  rw [readChar_of_lead hl]
  dsimp only
  rw [readTails_tailByte, hn]
  rfl

theorem readChar_three (hlow : 0x800 ≤ n) (hhigh : n < 0x10000)
    (hvalid : n < 0xD800 ∨ 0xDFFF < n) :
    readChar (.ofNat (0xE0 + n / 0x1000)) (tailByte (n / 0x40) :: tailByte n :: rest) =
      .ok (.ofNat n, rest) := by
  have hb : (UInt8.ofNat (0xE0 + n / 0x1000)).toNat = 0xE0 + n / 0x1000 :=
    toNat_ofNat_byte (by omega)
  obtain ⟨low, high, hl, hsecond⟩ := exists_lead_of_three hlow hhigh hvalid
  have hn : (n / 0x1000 * 0x40 + n / 0x40 % 0x40) * 0x40 + n % 0x40 = n := by omega
  rw [readChar_of_lead (hb ▸ hl)]
  dsimp only
  rw [readTails_second _ hsecond.1 hsecond.2, readTails_tailByte, hn]
  rfl

theorem readChar_four (hlow : 0x10000 ≤ n) (hhigh : n < 0x110000) :
    readChar (.ofNat (0xF0 + n / 0x40000))
        (tailByte (n / 0x1000) :: tailByte (n / 0x40) :: tailByte n :: rest) =
      .ok (.ofNat n, rest) := by
  have hb : (UInt8.ofNat (0xF0 + n / 0x40000)).toNat = 0xF0 + n / 0x40000 :=
    toNat_ofNat_byte (by omega)
  obtain ⟨low, high, hl, hsecond⟩ := exists_lead_of_four hlow hhigh
  have hn : ((n / 0x40000 * 0x40 + n / 0x1000 % 0x40) * 0x40 + n / 0x40 % 0x40) * 0x40 +
      n % 0x40 = n := by omega
  rw [readChar_of_lead (hb ▸ hl)]
  dsimp only
  rw [readTails_second _ hsecond.1 hsecond.2, readTails_tailByte, readTails_tailByte, hn]
  rfl

end

/-- A character is read back from its bytes, whatever follows them. -/
theorem readChar_pointBytes (c : Char) (rest : List UInt8) :
    ∃ b bs, pointBytes (.ofChar c) = b :: bs ∧ readChar b (bs ++ rest) = .ok (c, rest) := by
  have hc := toNat_lt_or c
  have hback : Char.ofNat c.toNat = c := Char.ofNat_toNat c
  have hvalue : (CodePoint.ofChar c).value = c.toNat := rfl
  unfold pointBytes
  rw [hvalue]
  generalize c.toNat = n at hc hback
  subst hback
  dsimp only
  split
  · exact ⟨_, _, rfl, readChar_one rest ‹_›⟩
  split
  · exact ⟨_, _, rfl, readChar_two rest (by omega) ‹_›⟩
  split
  · exact ⟨_, _, rfl, readChar_three rest (by omega) ‹_› (by omega)⟩
  · exact ⟨_, _, rfl, readChar_four rest (by omega) (by omega)⟩

/-! ## Texts -/

theorem encode_nil : encode [] = [] := rfl

theorem encode_cons (c : Char) (cs : List Char) :
    encode (c :: cs) = pointBytes (.ofChar c) ++ encode cs := rfl

theorem decodeChars_cons {b : UInt8} {bs rest : List UInt8} {c : Char}
    (h : readChar b bs = .ok (c, rest)) :
    decodeChars (b :: bs) = (decodeChars rest).map (c :: ·) := by
  rw [decodeChars]
  split
  · rename_i he
    rw [h] at he
    contradiction
  · rename_i d r hr
    rw [h] at hr
    obtain ⟨rfl, rfl⟩ := Prod.mk.inj (Except.ok.inj hr)
    rfl

theorem decodeChars_encode (cs : List Char) : decodeChars (encode cs) = .ok cs := by
  induction cs with
  | nil =>
    rw [encode_nil, decodeChars]
  | cons c cs ih =>
    obtain ⟨b, bs, hb, hread⟩ := readChar_pointBytes c (encode cs)
    rw [encode_cons, hb, List.cons_append, decodeChars_cons hread, ih]
    rfl

theorem decode_encode (cs : List Char) : decode (encode cs) = .ok cs := by
  rw [decode, decodeChars_encode]
  rfl

/-- Code points without surrogates have the bytes of their text. -/
theorem encode?_of_unpaired {ps : List CodePoint} (h : Unpaired ps) :
    encode? ps = .ok (encode (chars ps)) := by
  rw [← encode?_codePoints, codePoints_chars h]

theorem encode_append (cs ds : List Char) : encode (cs ++ ds) = encode cs ++ encode ds := by
  rw [encode, codePoints_append, List.flatMap_append, encode, encode]

/-! ## Only these bytes -/

/-- What a first byte tells, by the number of bytes that follow. With the first bits all zero the
second byte must not make a shorter form; after `0xED` it must not make a surrogate. -/
inductive Leads : Nat → Lead → Prop
  | one {n : Nat} : n < 0x80 → Leads n ⟨0, 0x80, 0xBF, n⟩
  | two {n : Nat} : 2 ≤ n → n < 0x20 → Leads (0xC0 + n) ⟨1, 0x80, 0xBF, n⟩
  | three {n low high : Nat} : n < 0x10 → 0x80 ≤ low → high ≤ 0xBF → (n = 0 → 0xA0 ≤ low) →
      (n = 0xD → high ≤ 0x9F) → Leads (0xE0 + n) ⟨2, low, high, n⟩
  | four {n low high : Nat} : n < 5 → 0x80 ≤ low → high ≤ 0xBF → (n = 0 → 0x90 ≤ low) →
      (n = 4 → high ≤ 0x8F) → Leads (0xF0 + n) ⟨3, low, high, n⟩

theorem leads_of_lead? {b : Nat} {l : Lead} (h : lead? b = some l) : Leads b l := by
  have hadd {k : Nat} (hk : k ≤ b) : ∃ n, b = k + n := ⟨b - k, by omega⟩
  unfold lead? at h
  split at h
  · obtain rfl := Option.some.inj h
    exact .one ‹_›
  split at h
  · obtain ⟨n, rfl⟩ := hadd (k := 0xC0) (by omega)
    rw [Nat.add_sub_cancel_left] at h
    obtain rfl := Option.some.inj h
    exact .two (by omega) (by omega)
  split at h
  · obtain rfl := Option.some.inj h
    subst b
    exact .three (n := 0) (by omega) (by omega) (by omega) (by omega) (by omega)
  split at h
  · obtain rfl := Option.some.inj h
    subst b
    exact .three (n := 0xD) (by omega) (by omega) (by omega) (by omega) (by omega)
  split at h
  · obtain ⟨n, rfl⟩ := hadd (k := 0xE0) (by omega)
    rw [Nat.add_sub_cancel_left] at h
    obtain rfl := Option.some.inj h
    exact .three (by omega) (by omega) (by omega) (by omega) (by omega)
  split at h
  · obtain rfl := Option.some.inj h
    subst b
    exact .four (n := 0) (by omega) (by omega) (by omega) (by omega) (by omega)
  split at h
  · obtain ⟨n, rfl⟩ := hadd (k := 0xF0) (by omega)
    rw [Nat.add_sub_cancel_left] at h
    obtain rfl := Option.some.inj h
    exact .four (by omega) (by omega) (by omega) (by omega) (by omega)
  split at h
  · obtain rfl := Option.some.inj h
    subst b
    exact .four (n := 4) (by omega) (by omega) (by omega) (by omega) (by omega)
  · contradiction

/-- A byte that is read after the first one is a tail byte. -/
theorem exists_tailByte_of_readTails {count low high bits done n : Nat} {bs rest : List UInt8}
    (hlow : 0x80 ≤ low) (hhigh : high ≤ 0xBF)
    (h : readTails (count + 1) low high bits done bs = .ok (n, rest)) :
    ∃ m bs', bs = tailByte m :: bs' ∧ m < 0x40 ∧ low ≤ 0x80 + m ∧ 0x80 + m ≤ high ∧
      readTails count 0x80 0xBF (bits * 0x40 + m) (done + 1) bs' = .ok (n, rest) := by
  cases bs with
  | nil => contradiction
  | cons b bs =>
    rw [readTails] at h
    split at h
    · rename_i hb
      refine ⟨b.toNat - 0x80, bs, ?_, by omega, by omega, by omega, h⟩
      rw [List.cons.injEq]
      refine ⟨UInt8.toNat_inj.1 ?_, rfl⟩
      rw [toNat_tailByte]
      omega
    · contradiction

theorem tailByte_eq {m n : Nat} (h : m % 0x40 = n % 0x40) : tailByte m = tailByte n := by
  rw [tailByte, h, tailByte]

/-- The bytes of the character with a number. -/
theorem pointBytes_ofNat {n : Nat} (h : n < 0xD800 ∨ 0xDFFF < n ∧ n < 0x110000) :
    pointBytes (.ofChar (.ofNat n)) =
      if n < 0x80 then [.ofNat n]
      else if n < 0x800 then [.ofNat (0xC0 + n / 0x40), tailByte n]
      else if n < 0x10000 then [.ofNat (0xE0 + n / 0x1000), tailByte (n / 0x40), tailByte n]
      else [.ofNat (0xF0 + n / 0x40000), tailByte (n / 0x1000), tailByte (n / 0x40),
        tailByte n] := by
  have hvalue : (CodePoint.ofChar (.ofNat n)).value = n := by
    show (Char.ofNat n).toNat = n
    rw [Char.ofNat, dif_pos h]
    rfl
  rw [pointBytes, hvalue]

theorem pointBytes_two {bits m : Nat} (hlow : 2 ≤ bits) (hhigh : bits < 0x20) (hm : m < 0x40) :
    pointBytes (.ofChar (.ofNat (bits * 0x40 + m))) = [.ofNat (0xC0 + bits), tailByte m] := by
  have hfirst : (bits * 0x40 + m) / 0x40 = bits := by omega
  rw [pointBytes_ofNat (by omega), if_neg (by omega), if_pos (by omega), hfirst,
    tailByte_eq (by omega : (bits * 0x40 + m) % 0x40 = m % 0x40)]

theorem pointBytes_three {bits m m' : Nat} (hbits : bits < 0x10) (hm : m < 0x40) (hm' : m' < 0x40)
    (hzero : bits = 0 → 0x20 ≤ m) (hsurrogate : bits = 0xD → m < 0x20) :
    pointBytes (.ofChar (.ofNat ((bits * 0x40 + m) * 0x40 + m'))) =
      [.ofNat (0xE0 + bits), tailByte m, tailByte m'] := by
  generalize hn : (bits * 0x40 + m) * 0x40 + m' = n
  have hfirst : n / 0x1000 = bits := by omega
  rw [pointBytes_ofNat (by omega), if_neg (by omega), if_neg (by omega), if_pos (by omega), hfirst,
    tailByte_eq (by omega : n / 0x40 % 0x40 = m % 0x40),
    tailByte_eq (by omega : n % 0x40 = m' % 0x40)]

theorem pointBytes_four {bits m m' m'' : Nat} (hbits : bits < 5) (hm : m < 0x40) (hm' : m' < 0x40)
    (hm'' : m'' < 0x40) (hzero : bits = 0 → 0x10 ≤ m) (hlast : bits = 4 → m < 0x10) :
    pointBytes (.ofChar (.ofNat (((bits * 0x40 + m) * 0x40 + m') * 0x40 + m''))) =
      [.ofNat (0xF0 + bits), tailByte m, tailByte m', tailByte m''] := by
  generalize hn : ((bits * 0x40 + m) * 0x40 + m') * 0x40 + m'' = n
  have hfirst : n / 0x40000 = bits := by omega
  rw [pointBytes_ofNat (by omega), if_neg (by omega), if_neg (by omega), if_neg (by omega), hfirst,
    tailByte_eq (by omega : n / 0x1000 % 0x40 = m % 0x40),
    tailByte_eq (by omega : n / 0x40 % 0x40 = m' % 0x40),
    tailByte_eq (by omega : n % 0x40 = m'' % 0x40)]

/-- The bytes of a number that is read after a first byte. -/
theorem pointBytes_of_readTails {k n : Nat} {l : Lead} (hl : Leads k l) {bs rest : List UInt8}
    (h : readTails l.tails l.low l.high l.bits 1 bs = .ok (n, rest)) :
    .ofNat k :: bs = pointBytes (.ofChar (.ofNat n)) ++ rest := by
  have hany {count bits done : Nat} {bs : List UInt8}
      (h : readTails (count + 1) 0x80 0xBF bits done bs = .ok (n, rest)) :=
    exists_tailByte_of_readTails (Nat.le_refl _) (Nat.le_refl _) h
  obtain ⟨tails, low, high, bits⟩ := l
  dsimp only at h
  cases hl with
  | one hn =>
    obtain ⟨rfl, rfl⟩ := Prod.mk.inj (Except.ok.inj h)
    rw [pointBytes_ofNat (by omega), if_pos hn]
    rfl
  | two hlow hhigh =>
    obtain ⟨m, bs, rfl, hm, -, -, h⟩ := hany h
    obtain ⟨rfl, rfl⟩ := Prod.mk.inj (Except.ok.inj h)
    rw [pointBytes_two hlow hhigh hm]
    rfl
  | three hbits hlow hhigh hzero hsurrogate =>
    obtain ⟨m, bs, rfl, hm, hmlow, hmhigh, h⟩ := exists_tailByte_of_readTails hlow hhigh h
    obtain ⟨m', bs, rfl, hm', -, -, h⟩ := hany h
    obtain ⟨rfl, rfl⟩ := Prod.mk.inj (Except.ok.inj h)
    rw [pointBytes_three hbits hm hm' (by omega) (by omega)]
    rfl
  | four hbits hlow hhigh hzero hlast =>
    obtain ⟨m, bs, rfl, hm, hmlow, hmhigh, h⟩ := exists_tailByte_of_readTails hlow hhigh h
    obtain ⟨m', bs, rfl, hm', -, -, h⟩ := hany h
    obtain ⟨m'', bs, rfl, hm'', -, -, h⟩ := hany h
    obtain ⟨rfl, rfl⟩ := Prod.mk.inj (Except.ok.inj h)
    rw [pointBytes_four hbits hm hm' hm'' (by omega) (by omega)]
    rfl

/-- A character that is read stands in the text with its own bytes. -/
theorem pointBytes_of_readChar {b : UInt8} {bs rest : List UInt8} {c : Char}
    (h : readChar b bs = .ok (c, rest)) : b :: bs = pointBytes (.ofChar c) ++ rest := by
  unfold readChar at h
  split at h
  · contradiction
  rename_i l hl
  cases hr : readTails l.tails l.low l.high l.bits 1 bs with
  | error e => rw [hr] at h; contradiction
  | ok r =>
    rw [hr] at h
    obtain ⟨rfl, rfl⟩ := Prod.mk.inj (Except.ok.inj h)
    have hbytes := pointBytes_of_readTails (leads_of_lead? hl) hr
    rwa [UInt8.ofNat_toNat] at hbytes

theorem encode_of_decodeChars {bs : List UInt8} {cs : List Char} (h : decodeChars bs = .ok cs) :
    bs = encode cs := by
  induction bs using decodeChars.induct generalizing cs with
  | case1 =>
    rw [decodeChars] at h
    obtain rfl := Except.ok.inj h
    rfl
  | case2 b bs problem length hread =>
    rw [decodeChars] at h
    split at h
    · contradiction
    · rename_i he
      rw [hread] at he
      contradiction
  | case3 b bs c rest hread ih =>
    rw [decodeChars_cons hread] at h
    cases hr : decodeChars rest with
    | error e => rw [hr] at h; contradiction
    | ok ds =>
      rw [hr] at h
      obtain rfl := Except.ok.inj h
      rw [pointBytes_of_readChar hread, ih hr, encode_cons]

/-- The bytes that are read are those of texts. -/
theorem decode_eq_ok_iff {bs : List UInt8} {cs : List Char} :
    decode bs = .ok cs ↔ bs = encode cs := by
  constructor
  · intro h
    cases hd : decodeChars bs with
    | error e => rw [decode, hd] at h; contradiction
    | ok ds =>
      rw [decode, hd] at h
      obtain rfl := Except.ok.inj h
      exact encode_of_decodeChars hd
  · rintro rfl
    exact decode_encode cs

end Utf8

end PolySolve.Text
