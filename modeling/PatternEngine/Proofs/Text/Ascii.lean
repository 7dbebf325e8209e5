import PatternEngine.Proofs.Source.Lexemes
import PatternEngine.Text.Utf8

/-!
# ASCII in UTF-8

A text of ASCII bytes is decoded to the characters of these bytes. It can be cut off the end of any
text before it is decoded, since no byte of it belongs to a character that begins before it. Bytes
that are decoded to the characters of a name are the bytes of the name: overlong forms are
ill-formed, and what stands for an ill-formed piece is no part of a name.
-/

namespace PatternEngine

variable {b : UInt8} {bytes name : Bytes}

/-- All bytes of the text are below 128. -/
def Bytes.IsAscii (bytes : Bytes) : Prop := ∀ b ∈ bytes, b < 0x80

/-- A part of a name is an ASCII byte and not the null byte. -/
theorem Ident.toNat_of_isPart (h : isPart b = true) : 0 < b.toNat ∧ b.toNat < 0x80 := by
  simp only [isPart, Ascii.isAlnum, Ascii.isAlpha, Ascii.isUpper, Ascii.isLower, Ascii.isDigit,
    Bool.or_eq_true, Bool.and_eq_true, decide_eq_true_eq, beq_iff_eq, UInt8.le_iff_toNat_le,
    ← UInt8.toNat_inj] at h
  simp only [UInt8.reduceToNat] at h
  omega

theorem Ident.lt_of_isPart (h : isPart b = true) : b < 0x80 :=
  UInt8.lt_iff_toNat_lt.mpr (toNat_of_isPart h).2

/-- The encoding of ASCII characters is the bytes that they stand for. -/
theorem Bytes.ofString_toAscii (h : bytes.IsAscii) : ofString bytes.toAscii = bytes := by
  have hone : ∀ b ∈ bytes, String.utf8EncodeChar (Ascii.toChar b) = [b] := by
    intro b hb
    have hlt := UInt8.lt_iff_toNat_lt.mp (h b hb)
    have hval : (Ascii.toChar b).val.toNat = b.toNat := Ascii.toNat_toChar b
    have hsize : (Ascii.toChar b).utf8Size = 1 := by
      rw [Char.utf8Size, if_pos]
      rw [UInt32.le_iff_toNat_le, hval]
      change b.toNat ≤ 127
      change b.toNat < 128 at hlt
      omega
    rw [String.utf8EncodeChar_eq_singleton hsize]
    refine congrArg (fun b => [b]) (UInt8.toNat_inj.mp ?_)
    rw [UInt32.toNat_toUInt8, hval]
    exact Nat.mod_eq_of_lt b.toNat_lt
  have hall : ofString bytes.toAscii = (bytes.map Ascii.toChar).flatMap String.utf8EncodeChar := by
    simp [ofString, toAscii, List.utf8Encode]
  rw [hall, List.flatMap_map]
  calc bytes.flatMap (fun b => String.utf8EncodeChar (Ascii.toChar b))
      = bytes.flatMap (fun b => [b]) := List.flatMap_congr hone
    _ = bytes := List.flatMap_singleton' bytes

/-- Different strings have different encodings. -/
theorem Bytes.ofString_injective : Function.Injective ofString := by
  intro s t h
  refine String.toByteArray_inj.mp (ByteArray.ext (Array.toList_inj.mp ?_))
  exact h

namespace Utf8

/-- An ASCII byte is a character of its own. -/
theorem lead_of_lt (h : b < 0x80) : lead b = .complete (Ascii.toChar b) := if_pos h

/-- Only an ASCII byte is a character of its own. -/
theorem lt_of_lead {c : Char} (h : lead b = .complete c) : b < 0x80 := by
  unfold lead at h
  split at h
  · assumption
  · repeat' split at h
    all_goals cases h

/-- ASCII bytes are characters of their own. -/
theorem scanFrom_ascii (h : bytes.IsAscii) :
    scanFrom none bytes = bytes.map fun b => some (Ascii.toChar b) := by
  induction bytes with
  | nil => rfl
  | cons b bytes ih =>
    rw [scanFrom, lead_of_lt (h b List.mem_cons_self), List.map_cons]
    exact congrArg _ (ih fun b hb => h b (List.mem_cons_of_mem _ hb))

/-- An ASCII text is decoded to its characters. -/
theorem decodeLossy_of_ascii (h : bytes.IsAscii) : decodeLossy bytes = bytes.toAscii := by
  rw [decodeLossy, decodeLossyChars, scan, scanFrom_ascii h, List.map_map]
  rfl

/-! ## Characters of several bytes -/

/-- The next byte is none of ASCII, and neither is the character when it is complete. -/
structure Pending.Wide (p : Pending) : Prop where
  least : 0x80 ≤ p.least.toNat
  value : 0x80 ≤ (p.value * 64 + (p.least.toNat - 0x80)) * 64 ^ p.more

theorem Pending.wide_of_value {more value : Nat} {greatest : UInt8}
    (h : 0x80 ≤ value * 64 * 64 ^ more) : (⟨more, 0x80, greatest, value⟩ : Pending).Wide := by
  have hleast : (0x80 : UInt8).toNat = 0x80 := rfl
  refine ⟨hleast.ge, ?_⟩
  rwa [hleast, Nat.sub_self, Nat.add_zero]

/-- A character that has begun is none of ASCII. -/
theorem wide_of_lead {p : Pending} (h : lead b = .pending p) : p.Wide := by
  unfold lead at h
  simp only [Bool.and_eq_true, decide_eq_true_eq, beq_iff_eq, UInt8.le_iff_toNat_le,
    UInt8.reduceToNat] at h
  split at h
  · cases h
  split at h
  · cases h
    exact Pending.wide_of_value (by omega)
  split at h
  · cases h
    exact ⟨by decide, by decide⟩
  split at h
  · cases h
    exact ⟨by decide, by decide⟩
  split at h
  · cases h
    exact Pending.wide_of_value (by omega)
  split at h
  · cases h
    exact ⟨by decide, by decide⟩
  split at h
  · cases h
    exact ⟨by decide, by decide⟩
  split at h
  · cases h
    exact Pending.wide_of_value (by omega)
  · cases h

/-- The characters that a text can begin with where no name begins: what stands for an ill-formed
piece, and characters of several bytes. -/
def Foreign (c : Option Char) : Prop :=
  ∀ b, Ident.isPart b = true → c.getD replacement ≠ Ascii.toChar b

/-- What stands for an ill-formed piece is no part of a name. -/
theorem foreign_none : Foreign none := by
  intro b hb heq
  have hnat := congrArg Char.toNat heq
  rw [Ascii.toNat_toChar] at hnat
  have hlt := (Ident.toNat_of_isPart hb).2
  have hreplacement : (none.getD replacement : Char).toNat = 0xfffd := by decide
  omega

/-- No code point above the ASCII bytes is a part of a name, nor is what takes its place where it is
none. -/
theorem foreign_ofNat {n : Nat} (h : 0x80 ≤ n) : Foreign (some (Char.ofNat n)) := by
  intro b hb heq
  obtain ⟨hpos, hlt⟩ := Ident.toNat_of_isPart hb
  have hnat := congrArg Char.toNat heq
  rw [Ascii.toNat_toChar, Option.getD_some] at hnat
  have hvalue : (Char.ofNat n).toNat = n ∨ (Char.ofNat n).toNat = 0 := by
    unfold Char.ofNat
    split
    · exact .inl rfl
    · exact .inr rfl
  omega

/-- A character that goes on is none of ASCII, and neither is one that is complete. -/
theorem Pending.Wide.accept {p : Pending} (hp : p.Wide) (hb : p.allows b = true) :
    (∃ n, 0x80 ≤ n ∧ p.accept b = .complete (Char.ofNat n)) ∨
      ∃ q : Pending, q.Wide ∧ p.accept b = .pending q := by
  obtain ⟨more, least, greatest, value⟩ := p
  obtain ⟨hleast, hvalue⟩ := hp
  rw [Pending.allows, Bool.and_eq_true, decide_eq_true_eq, UInt8.le_iff_toNat_le] at hb
  dsimp only at hleast hvalue hb
  have hnext : value * 64 + (least.toNat - 0x80) ≤ value * 64 + (b.toNat - 0x80) := by omega
  cases more with
  | zero =>
    rw [Nat.pow_zero, Nat.mul_one] at hvalue
    exact .inl ⟨_, hvalue.trans hnext, rfl⟩
  | succ more =>
    refine .inr ⟨_, Pending.wide_of_value ?_, rfl⟩
    calc 0x80 ≤ (value * 64 + (least.toNat - 0x80)) * 64 ^ (more + 1) := hvalue
      _ ≤ (value * 64 + (b.toNat - 0x80)) * 64 ^ (more + 1) := Nat.mul_le_mul_right _ hnext
      _ = (value * 64 + (b.toNat - 0x80)) * 64 * 64 ^ more := by
        rw [Nat.pow_succ', Nat.mul_assoc]

/-- A character that has begun is read as no part of a name. -/
theorem exists_foreign {p : Pending} (hp : p.Wide) (bytes : Bytes) :
    ∃ c chars, scanFrom (some p) bytes = c :: chars ∧ Foreign c := by
  induction bytes generalizing p with
  | nil => exact ⟨none, [], rfl, foreign_none⟩
  | cons b bytes ih =>
    rw [scanFrom]
    split
    · rename_i hb
      rcases hp.accept hb with ⟨n, hn, heq⟩ | ⟨q, hq, heq⟩
      · rw [heq]
        exact ⟨_, _, rfl, foreign_ofNat hn⟩
      · rw [heq]
        exact ih hq
    · exact ⟨none, _, rfl, foreign_none⟩

/-! ## Cutting off ASCII -/

/-- No byte of ASCII goes on with a character. -/
theorem Pending.Wide.not_allows {p : Pending} (hp : p.Wide) (hb : b < 0x80) :
    p.allows b = false := by
  have hlt := UInt8.lt_iff_toNat_lt.mp hb
  have hleast := hp.least
  rw [Pending.allows, decide_eq_false (p := p.least ≤ b), Bool.false_and]
  rw [UInt8.le_iff_toNat_le]
  change b.toNat < 128 at hlt
  omega

/-- The characters of a text from a byte on that can begin this. -/
def readOn : Lead → Bytes → List (Option Char)
  | .complete c, rest => some c :: scanFrom none rest
  | .pending p, rest => scanFrom (some p) rest
  | .invalid, rest => none :: scanFrom none rest

theorem scanFrom_cons (b : UInt8) (rest : Bytes) :
    scanFrom none (b :: rest) = readOn (lead b) rest := by
  rw [scanFrom]
  cases lead b <;> rfl

theorem scanFrom_some_cons (p : Pending) (b : UInt8) (rest : Bytes) :
    scanFrom (some p) (b :: rest) =
      if p.allows b then readOn (p.accept b) rest else none :: readOn (lead b) rest := by
  rw [scanFrom]
  cases p.accept b <;> cases lead b <;> rfl

/-- A text is cut before an ASCII byte. -/
theorem scanFrom_append {tail : Bytes} (hb : b < 0x80) (bytes : Bytes) :
    scanFrom none (bytes ++ b :: tail) = scanFrom none bytes ++ scanFrom none (b :: tail) ∧
      ∀ p : Pending, p.Wide → scanFrom (some p) (bytes ++ b :: tail) =
        scanFrom (some p) bytes ++ scanFrom none (b :: tail) := by
  induction bytes with
  | nil =>
    refine ⟨rfl, fun p hp => ?_⟩
    rw [List.nil_append, scanFrom_some_cons, if_neg (Bool.eq_false_iff.mp (hp.not_allows hb)),
      scanFrom_cons]
    rfl
  | cons b' bytes ih =>
    have hread : ∀ l : Lead, (∀ p, l = .pending p → p.Wide) →
        readOn l (bytes ++ b :: tail) = readOn l bytes ++ scanFrom none (b :: tail) := by
      intro l hl
      cases l with
      | complete c => exact congrArg (some c :: ·) ih.1
      | pending p => exact ih.2 p (hl p rfl)
      | invalid => exact congrArg (none :: ·) ih.1
    have hlead := hread (lead b') fun p => wide_of_lead
    refine ⟨?_, fun p hp => ?_⟩
    · rw [List.cons_append, scanFrom_cons, scanFrom_cons, hlead]
    rw [List.cons_append, scanFrom_some_cons, scanFrom_some_cons]
    split
    · rename_i hallows
      refine hread _ fun q hq => ?_
      rcases hp.accept hallows with ⟨n, -, heq⟩ | ⟨q', hq', heq⟩
      · cases heq.symm.trans hq
      · cases heq.symm.trans hq
        exact hq'
    · exact congrArg (none :: ·) hlead

/-- Texts of characters are joined where neither has an ill-formed piece. -/
theorem allChars_append (chars chars' : List (Option Char)) : allChars (chars ++ chars') =
    (allChars chars).bind fun cs => (allChars chars').map (cs ++ ·) := by
  induction chars with
  | nil => simp [allChars]
  | cons c chars ih =>
    cases c with
    | none => rfl
    | some c =>
      rw [List.cons_append, allChars, allChars, ih]
      cases allChars chars <;> cases allChars chars' <;> rfl

theorem allChars_map_some (chars : List Char) : allChars (chars.map some) = some chars := by
  induction chars with
  | nil => rfl
  | cons c chars ih =>
    rw [List.map_cons, allChars, ih]
    rfl

/-- A string that is decoded from a text with ASCII at its end has the encoding of this at its end.
-/
theorem exists_of_decode?_append {tail : Bytes} {text : String} (htail : Bytes.IsAscii (b :: tail))
    (h : decode? (bytes ++ b :: tail) = some text) :
    ∃ first, Bytes.ofString text = first ++ b :: tail := by
  have hscan : scanFrom none (b :: tail) = ((b :: tail).map Ascii.toChar).map some := by
    rw [scanFrom_ascii htail, List.map_map]
    rfl
  rw [decode?, scan, (scanFrom_append (htail b List.mem_cons_self) bytes).1, hscan, allChars_append,
    allChars_map_some] at h
  obtain ⟨chars, hchars, rfl⟩ := Option.map_eq_some_iff.mp h
  obtain ⟨first, -, hfirst⟩ := Option.bind_eq_some_iff.mp hchars
  cases hfirst
  have hsplit : String.ofList (first ++ (b :: tail).map Ascii.toChar) =
      String.ofList first ++ Bytes.toAscii (b :: tail) := String.ofList_append
  refine ⟨Bytes.ofString (String.ofList first), ?_⟩
  rw [hsplit, Bytes.ofString_append, Bytes.ofString_toAscii htail]

/-! ## Names -/

/-- Bytes that are decoded to the characters of a name are the bytes of the name. -/
theorem eq_of_decodeLossyChars (hname : ∀ b ∈ name, Ident.isPart b = true)
    (h : decodeLossyChars bytes = name.map Ascii.toChar) : bytes = name := by
  rw [decodeLossyChars, scan] at h
  induction bytes generalizing name with
  | nil => exact (List.map_eq_nil_iff.mp h.symm).symm
  | cons b bytes ih =>
    have hforeign : ∀ c chars, scanFrom none (b :: bytes) = c :: chars → ¬Foreign c := by
      intro c chars heq hc
      rw [heq] at h
      cases name with
      | nil => cases h
      | cons b' name => exact hc b' (hname b' List.mem_cons_self) (List.cons.inj h).1
    cases hlead : lead b with
    | complete c =>
      rw [scanFrom_cons, hlead] at h
      have hb := lt_of_lead hlead
      rw [lead_of_lt hb] at hlead
      cases hlead
      cases name with
      | nil => cases h
      | cons b' name =>
        obtain ⟨hfirst, hrest⟩ := List.cons.inj h
        cases Ascii.toChar_injective hfirst
        exact congrArg (b :: ·) (ih (fun b hb => hname b (List.mem_cons_of_mem _ hb)) hrest)
    | pending p =>
      obtain ⟨c, chars, hread, hc⟩ := exists_foreign (wide_of_lead hlead) bytes
      refine absurd hc (hforeign c chars ?_)
      rw [scanFrom_cons, hlead]
      exact hread
    | invalid =>
      refine absurd foreign_none (hforeign none (scanFrom none bytes) ?_)
      rw [scanFrom_cons, hlead]
      rfl

end Utf8

end PatternEngine
