import PatternEngine.Proofs.Text.Ascii

/-!
# Decoding what was encoded

The encoding of a string is well-formed, and decoding it gives the string back. A character is read
off its encoding byte by byte: the lead byte tells how many bytes follow and which of them may come
next, and each of these adds six bits.
-/

namespace PatternEngine

/-- The encoding of a string is that of its characters, one after the other. -/
theorem Bytes.ofString_ofList (chars : List Char) :
    ofString (String.ofList chars) = chars.flatMap String.utf8EncodeChar := by
  simp [ofString, List.utf8Encode]

namespace Utf8

variable {n value more : Nat} {least greatest : UInt8} {rest : Bytes}

/-- A byte that goes on with a character holds its next six bits. -/
def continuation (n : Nat) : UInt8 := UInt8.ofNat (n % 64 + 128)

@[simp] theorem toNat_continuation (n : Nat) : (continuation n).toNat = n % 64 + 128 := by
  rw [continuation, UInt8.toNat_ofNat', Nat.mod_eq_of_lt]
  have hlt := Nat.mod_lt n (show 0 < 64 by decide)
  change n % 64 + 128 < 256
  omega

/-- The last byte of a character completes it. -/
theorem scanFrom_last (h : (⟨0, least, greatest, value⟩ : Pending).allows (continuation n) = true) :
    scanFrom (some ⟨0, least, greatest, value⟩) (continuation n :: rest) =
      some (Char.ofNat (value * 64 + n % 64)) :: scanFrom none rest := by
  rw [scanFrom_some_cons, if_pos h]
  simp [Pending.accept, readOn]

/-- A byte before the last adds six bits. -/
theorem scanFrom_next
    (h : (⟨more + 1, least, greatest, value⟩ : Pending).allows (continuation n) = true) :
    scanFrom (some ⟨more + 1, least, greatest, value⟩) (continuation n :: rest) =
      scanFrom (some ⟨more, 0x80, 0xbf, value * 64 + n % 64⟩) rest := by
  rw [scanFrom_some_cons, if_pos h]
  simp [Pending.accept, readOn]

/-- The byte is within the bounds that the pending character sets. -/
theorem allows_continuation (hleast : least.toNat ≤ n % 64 + 128)
    (hgreatest : n % 64 + 128 ≤ greatest.toNat) :
    (⟨more, least, greatest, value⟩ : Pending).allows (continuation n) = true := by
  simp [Pending.allows, UInt8.le_iff_toNat_le, hleast, hgreatest]

/-- Behind the second byte of a character all bytes that go on are allowed. -/
theorem allows_any (n : Nat) :
    (⟨more, 0x80, 0xbf, value⟩ : Pending).allows (continuation n) = true := by
  have hlt := Nat.mod_lt n (show 0 < 64 by decide)
  apply allows_continuation
  · exact Nat.le_add_left 128 _
  · change n % 64 + 128 ≤ 191
    omega

/-- The lead byte of a character of two bytes. The first two would begin overlong forms. -/
theorem lead_two : ∀ n < 32, 2 ≤ n →
    lead (UInt8.ofNat (n % 32 + 0xc0)) = .pending ⟨0, 0x80, 0xbf, n⟩ := by
  decide

/-- The lead byte of a character of three bytes. The bounds of the next one shut out overlong forms
and surrogates. -/
theorem lead_three : ∀ n < 16, lead (UInt8.ofNat (n % 16 + 0xe0)) =
    .pending ⟨1, if n = 0 then 0xa0 else 0x80, if n = 13 then 0x9f else 0xbf, n⟩ := by
  decide

/-- The lead byte of a character of four bytes. The bounds of the next one shut out overlong forms
and what is above the last code point. -/
theorem lead_four : ∀ n < 5, lead (UInt8.ofNat (n % 8 + 0xf0)) =
    .pending ⟨2, if n = 0 then 0x90 else 0x80, if n = 4 then 0x8f else 0xbf, n⟩ := by
  decide

variable {v : Nat}

theorem scanFrom_one (h : v ≤ 0x7f) :
    scanFrom none (UInt8.ofNat v :: rest) = some (Char.ofNat v) :: scanFrom none rest := by
  have hbyte : (UInt8.ofNat v).toNat = v := by
    rw [UInt8.toNat_ofNat', Nat.mod_eq_of_lt (by omega)]
  have hascii : UInt8.ofNat v < 0x80 := by
    rw [UInt8.lt_iff_toNat_lt, hbyte]
    exact Nat.lt_succ_of_le h
  rw [scanFrom_cons, lead_of_lt hascii, readOn, Ascii.toChar, hbyte]

theorem scanFrom_two (hlo : 0x7f < v) (hhi : v ≤ 0x7ff) :
    scanFrom none (UInt8.ofNat (v / 64 % 0x20 + 0xc0) :: continuation v :: rest) =
      some (Char.ofNat v) :: scanFrom none rest := by
  have hsum : v / 64 * 64 + v % 64 = v := Nat.div_add_mod' v 64
  rw [scanFrom_cons, lead_two _ (by omega) (by omega), readOn, scanFrom_last (allows_any _), hsum]

/-- The second byte of three is above the bound where the lead byte is the first one, since the form
is not overlong, and below the bound where surrogates would begin. -/
theorem scanFrom_three (hlo : 0x7ff < v) (hhi : v ≤ 0xffff) (hvalid : v < 0xd800 ∨ 0xdfff < v) :
    scanFrom none (UInt8.ofNat (v / 4096 % 0x10 + 0xe0) :: continuation (v / 64) ::
      continuation v :: rest) = some (Char.ofNat v) :: scanFrom none rest := by
  have hsum : (v / 4096 * 64 + v / 64 % 64) * 64 + v % 64 = v := by omega
  have hsecond : (⟨1, if v / 4096 = 0 then 0xa0 else 0x80,
      if v / 4096 = 13 then 0x9f else 0xbf, v / 4096⟩ : Pending).allows
        (continuation (v / 64)) = true := by
    apply allows_continuation
    · split
      · change 0xa0 ≤ _
        omega
      · exact Nat.le_add_left _ _
    · split
      · change _ ≤ 0x9f
        omega
      · change _ ≤ 0xbf
        omega
  rw [scanFrom_cons, lead_three _ (by omega), readOn, scanFrom_next hsecond,
    scanFrom_last (allows_any _), hsum]

/-- The second byte of four is above the bound where the lead byte is the first one, since the form
is not overlong, and below the bound where the last code point would be passed. -/
theorem scanFrom_four (hlo : 0xffff < v) (hhi : v < 0x110000) :
    scanFrom none (UInt8.ofNat (v / 262144 % 0x08 + 0xf0) :: continuation (v / 4096) ::
      continuation (v / 64) :: continuation v :: rest) =
        some (Char.ofNat v) :: scanFrom none rest := by
  have hsum : ((v / 262144 * 64 + v / 4096 % 64) * 64 + v / 64 % 64) * 64 + v % 64 = v := by
    omega
  have hsecond : (⟨2, if v / 262144 = 0 then 0x90 else 0x80,
      if v / 262144 = 4 then 0x8f else 0xbf, v / 262144⟩ : Pending).allows
        (continuation (v / 4096)) = true := by
    apply allows_continuation
    · split
      · change 0x90 ≤ _
        omega
      · exact Nat.le_add_left _ _
    · split
      · change _ ≤ 0x8f
        omega
      · change _ ≤ 0xbf
        omega
  rw [scanFrom_cons, lead_four _ (by omega), readOn, scanFrom_next hsecond,
    scanFrom_next (allows_any _), scanFrom_last (allows_any _), hsum]

/-- A code point is encoded in one to four bytes, by its size. -/
theorem utf8EncodeChar_eq (c : Char) : String.utf8EncodeChar c =
    if c.toNat ≤ 0x7f then [UInt8.ofNat c.toNat]
    else if c.toNat ≤ 0x7ff then
      [UInt8.ofNat (c.toNat / 64 % 0x20 + 0xc0), continuation c.toNat]
    else if c.toNat ≤ 0xffff then
      [UInt8.ofNat (c.toNat / 4096 % 0x10 + 0xe0), continuation (c.toNat / 64),
        continuation c.toNat]
    else
      [UInt8.ofNat (c.toNat / 262144 % 0x08 + 0xf0), continuation (c.toNat / 4096),
        continuation (c.toNat / 64), continuation c.toNat] := rfl

/-- A character is read off its encoding. -/
theorem scanFrom_utf8EncodeChar (c : Char) (rest : Bytes) :
    scanFrom none (String.utf8EncodeChar c ++ rest) = some c :: scanFrom none rest := by
  have hvalid : c.toNat < 0xd800 ∨ 0xdfff < c.toNat ∧ c.toNat < 0x110000 := c.valid
  have hread : scanFrom none (String.utf8EncodeChar c ++ rest) =
      some (Char.ofNat c.toNat) :: scanFrom none rest := by
    rw [utf8EncodeChar_eq]
    split_ifs with hone htwo hthree
    · exact scanFrom_one hone
    · exact scanFrom_two (by omega) htwo
    · exact scanFrom_three (by omega) hthree (by omega)
    · exact scanFrom_four (by omega) (by omega)
  rwa [Char.ofNat_toNat] at hread

/-- The characters of a string are read off its encoding. -/
theorem scan_flatMap (chars : List Char) :
    scan (chars.flatMap String.utf8EncodeChar) = chars.map some := by
  unfold scan
  induction chars with
  | nil => rfl
  | cons c chars ih => rw [List.flatMap_cons, scanFrom_utf8EncodeChar, ih, List.map_cons]

/-- Decoding the encoding of a string gives the string back. -/
@[simp] theorem decodeLossy_ofString (s : String) : decodeLossy (.ofString s) = s := by
  obtain ⟨chars, rfl⟩ : ∃ chars, s = String.ofList chars := ⟨s.toList, String.ofList_toList.symm⟩
  rw [decodeLossy, decodeLossyChars, Bytes.ofString_ofList, scan_flatMap, List.map_map]
  simp [Function.comp_def]

end Utf8

end PatternEngine
