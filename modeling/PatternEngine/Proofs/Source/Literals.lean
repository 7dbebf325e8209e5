import PatternEngine.Proofs.Source.Lexemes

/-!
# The grammar of literals

A literal is a quote, any number of units and a quote. A unit is a byte that is neither a quote nor
a backslash, or one of the escapes, and stands for one byte. The reader accepts exactly these texts
and, beyond the grammar, an escape that has a plus sign in place of the first of its two hexadecimal
digits.

A text is taken apart into units in one way, so that a literal with such a sign is none of the
grammar.
-/

namespace PatternEngine

/-- The hexadecimal digit of a number below sixteen, in either case. -/
def Ascii.hexDigit (capital : Bool) (n : Nat) : UInt8 :=
  UInt8.ofNat (n + if n < 10 then 0x30 else if capital then 0x37 else 0x57)

theorem Ascii.hexValue?_hexDigit : ∀ (capital : Bool) (n : Nat), n < 16 →
    hexValue? (hexDigit capital n) = some (UInt8.ofNat n) := by decide

theorem Ascii.hexDigit_ne_plus : ∀ (capital : Bool) (n : Nat), n < 16 →
    hexDigit capital n ≠ 0x2b := by decide

/-- A byte is the digit of how far it is above `zero`, where the digits of such numbers are counted
from there. -/
theorem Ascii.exists_hexDigit_of_le {b zero : UInt8} {capital : Bool} (hle : zero ≤ b)
    (hlt : b.toNat - zero.toNat < 16)
    (hzero : (if b.toNat - zero.toNat < 10 then 0x30 else if capital then 0x37 else 0x57) =
      zero.toNat) : ∃ capital n, n < 16 ∧ b = hexDigit capital n ∧ b - zero = UInt8.ofNat n := by
  refine ⟨capital, b.toNat - zero.toNat, hlt, ?_, ?_⟩
  · rw [hexDigit, hzero, Nat.sub_add_cancel (UInt8.le_iff_toNat_le.mp hle), UInt8.ofNat_toNat]
  · rw [← UInt8.toNat_sub_of_le _ _ hle, UInt8.ofNat_toNat]

/-- A byte with a hexadecimal value is the digit of its value in one of the two cases. -/
theorem Ascii.exists_hexDigit {b value : UInt8} (h : hexValue? b = some value) :
    ∃ capital n, n < 16 ∧ b = hexDigit capital n ∧ value = UInt8.ofNat n := by
  unfold hexValue? at h
  simp only [isDigit, Bool.and_eq_true, decide_eq_true_eq, UInt8.le_iff_toNat_le] at h
  split at h
  · rename_i hdigit
    cases h
    have hle : 0x30 ≤ b.toNat := hdigit.1
    have hge : b.toNat ≤ 0x39 := hdigit.2
    have hzero : (0x30 : UInt8).toNat = 0x30 := rfl
    exact @exists_hexDigit_of_le b 0x30 false hdigit.1 (by omega) (if_pos (by omega))
  split at h
  · rename_i hsmall
    cases h
    have hle : 0x61 ≤ b.toNat := hsmall.1
    have hge : b.toNat ≤ 0x66 := hsmall.2
    have hzero : (0x57 : UInt8).toNat = 0x57 := rfl
    exact @exists_hexDigit_of_le b 0x57 false (UInt8.le_iff_toNat_le.mpr (by omega)) (by omega)
      (if_neg (by omega))
  split at h
  · rename_i hcapital
    cases h
    have hle : 0x41 ≤ b.toNat := hcapital.1
    have hge : b.toNat ≤ 0x46 := hcapital.2
    have hzero : (0x37 : UInt8).toNat = 0x37 := rfl
    exact @exists_hexDigit_of_le b 0x37 true (UInt8.le_iff_toNat_le.mpr (by omega)) (by omega)
      (if_neg (by omega))
  · cases h

namespace Literal

/-- The characters that stand for themselves behind a backslash: the quote, the backslash, the
brackets, the dash and the caret. -/
def escapable : List UInt8 := [0x22, 0x5c, 0x5b, 0x5d, 0x2d, 0x5e]

/-- A unit of the grammar, and the byte that it stands for. -/
inductive Spells : Bytes → UInt8 → Prop where
  /-- A byte that stands for itself. -/
  | plain {b : UInt8} (hquote : b ≠ 0x22) (hbackslash : b ≠ 0x5c) : Spells [b] b
  /-- The escape `\n`. -/
  | lineFeed : Spells [0x5c, 0x6e] 0x0a
  /-- The escape `\r`. -/
  | carriageReturn : Spells [0x5c, 0x72] 0x0d
  /-- The escape `\t`. -/
  | tab : Spells [0x5c, 0x74] 0x09
  /-- A character that has a meaning behind a backslash. -/
  | escaped {b : UInt8} (h : b ∈ escapable) : Spells [0x5c, b] b
  /-- The escape `\x` with two hexadecimal digits, each in either case. -/
  | hex {high low : Nat} (capital capital' : Bool) (hhigh : high < 16) (hlow : low < 16) :
    Spells [0x5c, 0x78, Ascii.hexDigit capital high, Ascii.hexDigit capital' low]
      (UInt8.ofNat (16 * high + low))

/-- The escape `\x` with a plus sign and one hexadecimal digit, which is no unit of the grammar, and
the value of the digit. -/
inductive SpellsSigned : Bytes → UInt8 → Prop where
  /-- The plus sign stands before the digit. -/
  | plus {low : Nat} (capital : Bool) (hlow : low < 16) :
    SpellsSigned [0x5c, 0x78, 0x2b, Ascii.hexDigit capital low] (UInt8.ofNat low)

/-- What is read as a unit. -/
def SpellsLoosely (written : Bytes) (b : UInt8) : Prop := Spells written b ∨ SpellsSigned written b

/-- Units one after the other, and the bytes that they stand for. -/
inductive Units (unit : Bytes → UInt8 → Prop) : Bytes → Bytes → Prop where
  | nil : Units unit [] []
  | cons {first written value : Bytes} {b : UInt8} (h : unit first b)
    (hrest : Units unit written value) : Units unit (first ++ written) (b :: value)

/-- Behind some units of the grammar stands an escape with a sign. -/
def SignedAhead (text : Bytes) : Prop :=
  ∃ before value signed b tail, Units Spells before value ∧ SpellsSigned signed b ∧
    text = before ++ (signed ++ tail)

variable {written first value text tail rest : Bytes} {b : UInt8} {c d : Cursor} {pos : Nat}

/-! ## Escapes -/

/-- Two digits are the hexadecimal form of a byte. -/
theorem hexByte?_hexDigit {high low : Nat} (capital capital' : Bool) (hhigh : high < 16)
    (hlow : low < 16) :
    hexByte? (Ascii.hexDigit capital high) (Ascii.hexDigit capital' low) =
      some (UInt8.ofNat (16 * high + low)) := by
  have hplus : (Ascii.hexDigit capital high == 0x2b) = false :=
    beq_eq_false_iff_ne.mpr (Ascii.hexDigit_ne_plus capital high hhigh)
  rw [hexByte?, if_neg (Bool.eq_false_iff.mp hplus), Ascii.hexValue?_hexDigit capital high hhigh,
    Ascii.hexValue?_hexDigit capital' low hlow]
  simp [UInt8.ofNat_add, UInt8.ofNat_mul]

/-- Where two characters stand for a byte they are digits, unless the first is a plus sign. -/
theorem spellsLoosely_of_hexByte? {high low : UInt8} (h : hexByte? high low = some b) :
    SpellsLoosely [0x5c, 0x78, high, low] b := by
  unfold hexByte? at h
  split at h
  · rename_i hplus
    obtain ⟨capital, n, hn, rfl, rfl⟩ := Ascii.exists_hexDigit h
    rw [eq_of_beq hplus]
    exact .inr (.plus capital hn)
  · obtain ⟨x, hx, h⟩ := Option.bind_eq_some_iff.mp h
    obtain ⟨y, hy, h⟩ := Option.bind_eq_some_iff.mp h
    obtain ⟨capital, n, hn, rfl, rfl⟩ := Ascii.exists_hexDigit hx
    obtain ⟨capital', m, hm, rfl, rfl⟩ := Ascii.exists_hexDigit hy
    have hb : b = UInt8.ofNat (16 * n + m) := by
      rw [UInt8.ofNat_add, UInt8.ofNat_mul]
      exact (Option.some.inj h).symm
    exact hb ▸ .inl (.hex capital capital' hn hm)

/-- An escape that is read is a unit. -/
theorem exists_unit_of_escape (h : escape ⟨pos, 0x5c :: rest⟩ = .ok (b, d)) :
    ∃ written tail, SpellsLoosely (0x5c :: written) b ∧ rest = written ++ tail ∧
      d = ⟨pos + (written.length + 1), tail⟩ := by
  rw [escape, List.drop_succ_cons, List.drop_zero] at h
  cases rest with
  | nil => cases h
  | cons first rest =>
    dsimp only at h
    split at h
    · rename_i hn
      cases h
      rw [eq_of_beq hn]
      exact ⟨[0x6e], rest, .inl .lineFeed, rfl, rfl⟩
    split at h
    · rename_i hr
      cases h
      rw [eq_of_beq hr]
      exact ⟨[0x72], rest, .inl .carriageReturn, rfl, rfl⟩
    split at h
    · rename_i ht
      cases h
      rw [eq_of_beq ht]
      exact ⟨[0x74], rest, .inl .tab, rfl, rfl⟩
    split at h
    · rename_i hx
      rw [eq_of_beq hx]
      split at h
      · rename_i high low rest
        split at h
        · rename_i byte hbyte
          cases h
          exact ⟨[0x78, high, low], rest, spellsLoosely_of_hexByte? hbyte, rfl, rfl⟩
        · cases h
      · cases h
    split at h
    · rename_i hescapable
      cases h
      exact ⟨[b], rest, .inl (.escaped (by simpa [escapable, or_assoc] using hescapable)), rfl, rfl⟩
    · cases h

/-- A unit that starts with a backslash is read as an escape. -/
theorem escape_of_unit (h : SpellsLoosely (0x5c :: written) b) (pos : Nat) (tail : Bytes) :
    escape ⟨pos, 0x5c :: (written ++ tail)⟩ = .ok (b, ⟨pos + (written.length + 1), tail⟩) := by
  rcases h with h | h
  · cases h with
    | plain _ hbackslash => exact absurd rfl hbackslash
    | lineFeed | carriageReturn | tab => rfl
    | escaped hb =>
      simp only [escapable, List.mem_cons, List.not_mem_nil, or_false] at hb
      rcases hb with rfl | rfl | rfl | rfl | rfl | rfl <;> rfl
    | hex capital capital' hhigh hlow =>
      simp [escape, hexByte?_hexDigit capital capital' hhigh hlow, Cursor.advance]
  · cases h with
    | plus capital hlow =>
      simp [escape, hexByte?, Ascii.hexValue?_hexDigit capital _ hlow, Cursor.advance]

/-! ## Units -/

/-- A unit is a plain byte or starts with a backslash. -/
theorem SpellsLoosely.cases_head (h : SpellsLoosely first b) :
    (first = [b] ∧ b ≠ 0x22 ∧ b ≠ 0x5c) ∨ ∃ written, first = 0x5c :: written := by
  rcases h with h | h
  · cases h with
    | plain hquote hbackslash => exact .inl ⟨rfl, hquote, hbackslash⟩
    | lineFeed | carriageReturn | tab | escaped _ | hex _ _ _ _ => exact .inr ⟨_, rfl⟩
  · cases h
    exact .inr ⟨_, rfl⟩

/-- No unit starts with a quote. -/
theorem SpellsLoosely.ne_quote (h : SpellsLoosely first b) : first ++ text ≠ 0x22 :: tail := by
  intro heq
  rcases h.cases_head with ⟨rfl, hquote, -⟩ | ⟨written, rfl⟩
  · exact hquote (List.cons.inj heq).1
  · exact absurd (List.cons.inj heq).1 (by decide)

/-- A text starts with one unit at most. -/
theorem SpellsLoosely.unique {first' : Bytes} {b' : UInt8} (h : SpellsLoosely first b)
    (h' : SpellsLoosely first' b') (heq : first ++ text = first' ++ tail) :
    first = first' ∧ text = tail := by
  rcases h.cases_head with ⟨rfl, -, hbackslash⟩ | ⟨written, rfl⟩
  · rcases h'.cases_head with ⟨rfl, -, -⟩ | ⟨written', rfl⟩
    · obtain ⟨rfl, rfl⟩ := List.cons.inj heq
      exact ⟨rfl, rfl⟩
    · exact absurd (List.cons.inj heq).1 hbackslash
  · rcases h'.cases_head with ⟨rfl, -, hbackslash⟩ | ⟨written', rfl⟩
    · exact absurd (List.cons.inj heq).1.symm hbackslash
    · have hread := escape_of_unit h 0 text
      have hread' := escape_of_unit h' 0 tail
      rw [List.cons_append, List.cons_append] at heq
      rw [heq, hread'] at hread
      obtain rfl : tail = text := congrArg (fun r : UInt8 × Cursor => r.2.rest)
        (Except.ok.inj hread)
      exact ⟨List.append_cancel_right heq, rfl⟩

/-- An escape with a sign is no unit of the grammar. -/
theorem SpellsSigned.not_spells {b' : UInt8} (h : SpellsSigned first b) : ¬ Spells first b' := by
  obtain @⟨low, capital, hlow⟩ := h
  intro h'
  generalize hfirst : ([0x5c, 0x78, 0x2b, Ascii.hexDigit capital low] : Bytes) = first at h'
  cases h' with
  | plain _ _ | lineFeed | carriageReturn | tab | escaped _ => simp at hfirst
  | hex capital' _ hhigh _ =>
    simp only [List.cons.injEq, true_and] at hfirst
    exact Ascii.hexDigit_ne_plus capital' _ hhigh hfirst.1.symm

theorem Units.mono {unit unit' : Bytes → UInt8 → Prop}
    (hunit : ∀ first b, unit first b → unit' first b) (h : Units unit written value) :
    Units unit' written value := by
  induction h with
  | nil => exact .nil
  | cons h _ ih => exact .cons (hunit _ _ h) ih

/-- What is read is of the grammar, or it has an escape with a sign. -/
theorem Units.spelled_or_signed (h : Units SpellsLoosely written value) :
    Units Spells written value ∨ ∀ tail, SignedAhead (written ++ tail) := by
  induction h with
  | nil => exact .inl .nil
  | @cons first written value b h _ ih =>
    rcases h with h | h
    · rcases ih with hunits | hsigned
      · exact .inl (.cons h hunits)
      · refine .inr fun tail => ?_
        obtain ⟨before, value, signed, b', behind, hbefore, hsign, heq⟩ := hsigned tail
        refine ⟨first ++ before, _, signed, b', behind, .cons h hbefore, hsign, ?_⟩
        rw [List.append_assoc, heq, List.append_assoc]
    · exact .inr fun tail => ⟨[], [], first, b, written ++ tail, .nil, h,
        List.append_assoc first written tail⟩

/-- A literal of the grammar has no escape with a sign. -/
theorem Units.not_signedAhead (h : Units Spells written value) :
    ¬ SignedAhead (written ++ 0x22 :: tail) := by
  rintro ⟨before, value', signed, b, behind, hbefore, hsigned, heq⟩
  induction hbefore generalizing written value with
  | nil =>
    rw [List.nil_append] at heq
    cases h with
    | nil => exact SpellsLoosely.ne_quote (.inr hsigned) heq.symm
    | cons hfirst _ =>
      rw [List.append_assoc] at heq
      obtain ⟨rfl, -⟩ := SpellsLoosely.unique (.inl hfirst) (.inr hsigned) heq
      exact hsigned.not_spells hfirst
  | @cons first' before value' b' hfirst' _ ih =>
    rw [List.append_assoc] at heq
    cases h with
    | nil => exact SpellsLoosely.ne_quote (.inl hfirst') heq.symm
    | cons hfirst hrest =>
      rw [List.append_assoc] at heq
      exact ih hrest (SpellsLoosely.unique (.inl hfirst) (.inl hfirst') heq).2

/-! ## Literals -/

variable {opening : Cursor} {steps read : Bytes}

/-- What is read up to the closing quote consists of units. -/
theorem exists_units_of_bodyFrom
    (h : bodyFrom opening steps read ⟨pos, rest⟩ = .ok (value, d)) :
    ∃ written bytes tail, Units SpellsLoosely written bytes ∧ rest = written ++ 0x22 :: tail ∧
      value = read.reverse ++ bytes ∧ d = ⟨pos + (written.length + 1), tail⟩ := by
  induction steps generalizing read pos rest with
  | nil => cases h
  | cons step steps ih =>
    match rest with
    | [] => cases h
    | b :: rest =>
      change (if b == 0x22 then _ else _) = _ at h
      split at h
      · rename_i hquote
        obtain ⟨rfl, rfl⟩ := Prod.mk.inj (Except.ok.inj h)
        rw [eq_of_beq hquote]
        exact ⟨[], [], rest, .nil, rfl, (List.append_nil _).symm, rfl⟩
      rename_i hquote
      split at h
      · rename_i hslash
        rw [eq_of_beq hslash] at h ⊢
        obtain ⟨⟨byte, e⟩, hescape, h⟩ := Except.exists_of_bind_eq_ok h
        obtain ⟨first, behind, hunit, rfl, rfl⟩ := exists_unit_of_escape hescape
        obtain ⟨written, bytes, tail, hunits, rfl, rfl, rfl⟩ := ih h
        refine ⟨_, _, tail, .cons hunit hunits, by simp, by simp, ?_⟩
        simp only [List.length_append, List.length_cons, Cursor.mk.injEq, and_true]
        omega
      · rename_i hslash
        obtain ⟨written, bytes, tail, hunits, rfl, rfl, rfl⟩ := ih h
        have hunit : SpellsLoosely [b] b :=
          .inl (.plain (by simpa using hquote) (by simpa using hslash))
        refine ⟨_, _, tail, .cons hunit hunits, by simp, by simp, ?_⟩
        simp only [List.length_append, List.length_cons, List.length_nil, Cursor.mk.injEq, and_true]
        omega

/-- Units are read up to the closing quote. -/
theorem bodyFrom_of_units (h : Units SpellsLoosely written value) (pos : Nat)
    (hsteps : written.length < steps.length) :
    bodyFrom opening steps read ⟨pos, written ++ 0x22 :: tail⟩ =
      .ok (read.reverse ++ value, ⟨pos + (written.length + 1), tail⟩) := by
  induction h generalizing steps read pos with
  | nil =>
    obtain ⟨step, steps, rfl⟩ := List.exists_cons_of_length_pos hsteps
    simp [bodyFrom, Cursor.peek?, Cursor.advance]
  | @cons first written value b hunit _ ih =>
    obtain ⟨step, steps, rfl⟩ := List.exists_cons_of_length_pos (Nat.zero_lt_of_lt hsteps)
    rw [List.length_append, List.length_cons] at hsteps
    rw [List.append_assoc]
    rcases hunit.cases_head with ⟨rfl, hquote, hslash⟩ | ⟨escaped, rfl⟩
    · have hrest : bodyFrom opening steps (b :: read) ⟨pos + 1, written ++ 0x22 :: tail⟩ = _ :=
        ih (pos + 1) (by rw [List.length_singleton] at hsteps; omega)
      change (if b == 0x22 then _ else if b == 0x5c then _ else _) = _
      rw [if_neg (by simpa using hquote), if_neg (by simpa using hslash)]
      refine hrest.trans ?_
      simp [Nat.add_comm, Nat.add_left_comm]
    · have hescape := escape_of_unit hunit pos (written ++ 0x22 :: tail)
      have hrest : bodyFrom opening steps (b :: read)
          ⟨pos + (escaped.length + 1), written ++ 0x22 :: tail⟩ = _ :=
        ih _ (by rw [List.length_cons] at hsteps; omega)
      change (escape _ >>= _) = _
      refine (Except.bind_of_eq_ok hescape).trans (hrest.trans ?_)
      simp [Nat.add_assoc, Nat.add_comm, Nat.add_left_comm]

/-- A literal is read exactly when units and a closing quote stand behind its opening quote. -/
theorem literal_eq_ok_iff : literal ⟨pos, 0x22 :: text⟩ = .ok (value, d) ↔
    ∃ written tail, Units SpellsLoosely written value ∧ text = written ++ 0x22 :: tail ∧
      d = ⟨pos + (written.length + 2), tail⟩ := by
  have hliteral : literal ⟨pos, 0x22 :: text⟩ =
      bodyFrom ⟨pos, 0x22 :: text⟩ (0x22 :: text) [] ⟨pos + 1, text⟩ := rfl
  rw [hliteral]
  constructor
  · intro h
    obtain ⟨written, bytes, tail, hunits, rfl, rfl, rfl⟩ := exists_units_of_bodyFrom h
    refine ⟨written, tail, hunits, rfl, ?_⟩
    rw [Nat.add_assoc, Nat.add_comm 1]
  · rintro ⟨written, tail, hunits, rfl, rfl⟩
    rw [bodyFrom_of_units hunits]
    · rw [Nat.add_assoc, Nat.add_comm 1]
      rfl
    · simp only [List.length_cons, List.length_append]
      omega

/-- Behind an opening quote a literal of the grammar is read up to its closing quote as the bytes
that its units stand for. Nothing else is read but literals with an escape that has a plus sign and
one hexadecimal digit: what is read is of the grammar exactly where no such escape comes first. -/
theorem literal_grammar (pos : Nat) (text value : Bytes) (d : Cursor) :
    (literal ⟨pos, 0x22 :: text⟩ = .ok (value, d) ↔
      ∃ written tail, Units SpellsLoosely written value ∧ text = written ++ 0x22 :: tail ∧
        d = ⟨pos + (written.length + 2), tail⟩) ∧
      ((∃ written tail, Units Spells written value ∧ text = written ++ 0x22 :: tail ∧
          d = ⟨pos + (written.length + 2), tail⟩) ↔
        literal ⟨pos, 0x22 :: text⟩ = .ok (value, d) ∧ ¬ SignedAhead text) := by
  refine ⟨literal_eq_ok_iff, ?_, ?_⟩
  · rintro ⟨written, tail, hunits, rfl, rfl⟩
    exact ⟨literal_eq_ok_iff.mpr ⟨written, tail, hunits.mono fun _ _ => .inl, rfl, rfl⟩,
      hunits.not_signedAhead⟩
  · rintro ⟨h, hsigned⟩
    obtain ⟨written, tail, hunits, rfl, rfl⟩ := literal_eq_ok_iff.mp h
    exact ⟨written, tail, hunits.spelled_or_signed.resolve_right fun h => hsigned (h _), rfl, rfl⟩

/-- A hexadecimal escape with a plus sign is read, though it is none of the grammar. -/
theorem not_literal_grammar_signed :
    literal ⟨0, Bytes.ofString "\"\\x+f\""⟩ = .ok ([0x0f], ⟨6, []⟩) ∧
      ¬ ∃ written value tail, Units Spells written value ∧
        Bytes.ofString "\\x+f\"" = written ++ 0x22 :: tail := by
  refine ⟨by cbv, ?_⟩
  rintro ⟨written, value, tail, hunits, htext⟩
  have hsigned : SignedAhead (Bytes.ofString "\\x+f\"") :=
    ⟨[], [], _, _, [0x22], .nil, @SpellsSigned.plus 15 false (by decide), by cbv⟩
  rw [htext] at hsigned
  exact hunits.not_signedAhead hsigned

end Literal

end PatternEngine
