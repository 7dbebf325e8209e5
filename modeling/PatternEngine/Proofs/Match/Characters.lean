import PatternEngine.Proofs.Match.Refinement
import PatternEngine.Proofs.Text.Encoding

/-!
# The step over one character

The pattern for one character consumes the well-formed character that starts at its place, and a
single byte where none starts there. Of the bytes it looks only at the number that the first one
announces and at the two bits that mark a continuation, so there is one exception: bytes that are
marked as a character, but spell it in too many bytes or spell no character at all, are consumed as
if they were one.
-/

namespace PatternEngine

namespace Utf8

variable {b : UInt8} {bytes text rest tail : Bytes} {width : Nat}

/-! ## Well-formed characters -/

/-- A character of this many bytes starts the text. -/
def CharAhead (text : Bytes) (width : Nat) : Prop :=
  ∃ c : Char, String.utf8EncodeChar c <+: text ∧ (String.utf8EncodeChar c).length = width

/-- The width is that of the character that starts the text, or one where none does. -/
def IsStep (text : Bytes) (width : Nat) : Prop :=
  CharAhead text width ∨ (∀ other, ¬ CharAhead text other) ∧ width = 1

/-- A lead byte and as many continuation bytes as it announces that are no character. -/
inductive Lookalike : Bytes → Prop where
  /-- A code point below U+0800 in three bytes. -/
  | overlongThree {second third : UInt8} (hsecond : isContinuation second = true)
    (hthird : isContinuation third = true) (h : second < 0xa0) : Lookalike [0xe0, second, third]
  /-- A surrogate. -/
  | surrogate {second third : UInt8} (hsecond : isContinuation second = true)
    (hthird : isContinuation third = true) (h : 0xa0 ≤ second) : Lookalike [0xed, second, third]
  /-- A code point below U+10000 in four bytes. -/
  | overlongFour {second third fourth : UInt8} (hsecond : isContinuation second = true)
    (hthird : isContinuation third = true) (hfourth : isContinuation fourth = true)
    (h : second < 0x90) : Lookalike [0xf0, second, third, fourth]
  /-- A value above U+10FFFF. -/
  | beyondLast {second third fourth : UInt8} (hsecond : isContinuation second = true)
    (hthird : isContinuation third = true) (hfourth : isContinuation fourth = true)
    (h : 0x90 ≤ second) : Lookalike [0xf4, second, third, fourth]

/-! ## Continuation bytes -/

/-- The continuation bytes are a quarter of all bytes. -/
theorem isContinuation_iff : isContinuation b = true ↔ 0x80 ≤ b.toNat ∧ b.toNat ≤ 0xbf := by
  have h : ∀ n < 256, isContinuation (UInt8.ofNat n) = true ↔ 0x80 ≤ n ∧ n ≤ 0xbf := by
    decide +kernel
  simpa using h b.toNat b.toNat_lt

/-- A byte that holds six bits of a code point is a continuation byte. -/
theorem isContinuation_continuation (n : Nat) : isContinuation (continuation n) = true := by
  rw [isContinuation_iff, toNat_continuation]
  omega

/-- A continuation byte holds its lower six bits. -/
theorem continuation_eq {n : Nat} (h : isContinuation b = true) (hn : n % 64 = b.toNat - 0x80) :
    continuation n = b := by
  have hb := isContinuation_iff.mp h
  apply UInt8.toNat_inj.mp
  rw [toNat_continuation]
  omega

/-! ## The width of a step -/

/-- The announced width is the step where all continuation bytes are there. -/
theorem stepWidth_of_announced (hlen : bytes.length + 1 = announcedWidth b)
    (h : ∀ x ∈ bytes, isContinuation x = true) :
    stepWidth b (bytes ++ tail) = bytes.length + 1 := by
  have htake : (bytes ++ tail).take (announcedWidth b - 1) = bytes := by
    rw [← hlen, Nat.add_sub_cancel, List.take_left]
  simp [stepWidth, htake, hlen, List.all_eq_true.mpr h]

/-- A step is one byte wide unless all continuation bytes are there. -/
theorem stepWidth_cases (b : UInt8) (rest : Bytes) : stepWidth b rest = 1 ∨
    ∃ bytes tail, rest = bytes ++ tail ∧ bytes.length + 1 = announcedWidth b ∧
      ∀ x ∈ bytes, isContinuation x = true := by
  simp only [stepWidth]
  split
  · rename_i h
    rw [Bool.and_eq_true, beq_iff_eq, List.all_eq_true] at h
    exact .inr ⟨_, _, (List.take_append_drop _ rest).symm, h.1, h.2⟩
  · exact .inl rfl

theorem announcedWidth_one : ∀ n < 128, announcedWidth (UInt8.ofNat n) = 1 := by
  decide

theorem announcedWidth_two : ∀ n < 32, 2 ≤ n →
    announcedWidth (UInt8.ofNat (n % 0x20 + 0xc0)) = 2 := by
  decide

theorem announcedWidth_three : ∀ n < 16, announcedWidth (UInt8.ofNat (n % 0x10 + 0xe0)) = 3 := by
  decide

theorem announcedWidth_four : ∀ n < 5, announcedWidth (UInt8.ofNat (n % 0x08 + 0xf0)) = 4 := by
  decide

/-- A character is as wide as its first byte announces. -/
theorem exists_announced (c : Char) : ∃ lead bytes, String.utf8EncodeChar c = lead :: bytes ∧
    bytes.length + 1 = announcedWidth lead ∧ ∀ x ∈ bytes, isContinuation x = true := by
  have hvalid : c.toNat < 0xd800 ∨ 0xdfff < c.toNat ∧ c.toNat < 0x110000 := c.valid
  rw [utf8EncodeChar_eq]
  split_ifs with hone htwo hthree
  · exact ⟨_, _, rfl, (announcedWidth_one _ (by omega)).symm, nofun⟩
  · exact ⟨_, _, rfl, (announcedWidth_two _ (by omega) (by omega)).symm,
      by simp [isContinuation_continuation]⟩
  · exact ⟨_, _, rfl, (announcedWidth_three _ (by omega)).symm,
      by simp [isContinuation_continuation]⟩
  · exact ⟨_, _, rfl, (announcedWidth_four _ (by omega)).symm,
      by simp [isContinuation_continuation]⟩

/-- A step over a character is as wide as the character. -/
theorem CharAhead.stepWidth_eq (h : CharAhead (b :: rest) width) : stepWidth b rest = width := by
  obtain ⟨c, ⟨tail, htail⟩, rfl⟩ := h
  obtain ⟨lead, bytes, hc, hlen, hbytes⟩ := exists_announced c
  rw [hc, List.cons_append] at htail
  obtain ⟨rfl, rfl⟩ := List.cons.inj htail
  rw [stepWidth_of_announced hlen hbytes, hc, List.length_cons]

/-- A step over bytes that look like a character is as wide as they are. -/
theorem Lookalike.stepWidth_eq (h : Lookalike bytes) (hbytes : bytes <+: b :: rest) :
    stepWidth b rest = bytes.length := by
  obtain ⟨tail, htail⟩ := hbytes
  cases h with
  | overlongThree hsecond hthird _ | surrogate hsecond hthird _ =>
    obtain ⟨rfl, rfl⟩ := List.cons.inj htail
    exact @stepWidth_of_announced _ [_, _] tail rfl (by simp [hsecond, hthird])
  | overlongFour hsecond hthird hfourth _ | beyondLast hsecond hthird hfourth _ =>
    obtain ⟨rfl, rfl⟩ := List.cons.inj htail
    exact @stepWidth_of_announced _ [_, _, _] tail rfl (by simp [hsecond, hthird, hfourth])

/-! ## Bytes that look like a character -/

/-- A lead byte and one that may not follow it begin no character. -/
theorem scanFrom_refused {p : Pending} {second : UInt8} (hlead : lead b = .pending p)
    (h : p.allows second = false) :
    ∃ chars, scanFrom none (b :: second :: rest) = none :: chars := by
  rw [scanFrom_cons, hlead, readOn, scanFrom_some_cons, h]
  exact ⟨_, rfl⟩

/-- Bytes that look like a character are not decoded to one. -/
theorem Lookalike.scanFrom_eq (h : Lookalike bytes) (tail : Bytes) :
    ∃ chars, scanFrom none (bytes ++ tail) = none :: chars := by
  cases h with
  | overlongThree _ _ h =>
    have hleast : ¬ (0xa0 : UInt8) ≤ _ := UInt8.not_le.mpr h
    exact scanFrom_refused (p := ⟨1, 0xa0, 0xbf, 0⟩) rfl (by simp [Pending.allows, hleast])
  | surrogate _ _ h =>
    have hgreatest : ¬ _ ≤ (0x9f : UInt8) := UInt8.not_le.mpr (UInt8.lt_of_lt_of_le (by decide) h)
    exact scanFrom_refused (p := ⟨1, 0x80, 0x9f, 0xd⟩) rfl (by simp [Pending.allows, hgreatest])
  | overlongFour _ _ _ h =>
    have hleast : ¬ (0x90 : UInt8) ≤ _ := UInt8.not_le.mpr h
    exact scanFrom_refused (p := ⟨2, 0x90, 0xbf, 0⟩) rfl (by simp [Pending.allows, hleast])
  | beyondLast _ _ _ h =>
    have hgreatest : ¬ _ ≤ (0x8f : UInt8) := UInt8.not_le.mpr (UInt8.lt_of_lt_of_le (by decide) h)
    exact scanFrom_refused (p := ⟨2, 0x80, 0x8f, 4⟩) rfl (by simp [Pending.allows, hgreatest])

/-- No text starts with a character and with bytes that only look like one. -/
theorem Lookalike.not_charAhead (h : Lookalike bytes) (hbytes : bytes <+: text) :
    ¬ CharAhead text width := by
  rintro ⟨c, ⟨behind, rfl⟩, -⟩
  obtain ⟨tail, htail⟩ := hbytes
  obtain ⟨chars, hchars⟩ := h.scanFrom_eq tail
  rw [htail, scanFrom_utf8EncodeChar] at hchars
  cases hchars

/-- A code point that is no surrogate is that of a character. -/
theorem exists_char {n : Nat} (h : n < 0xd800 ∨ 0xdfff < n ∧ n < 0x110000) :
    ∃ c : Char, c.toNat = n := ⟨Char.ofNat n, by rw [Char.toNat_ofNat, if_pos h]⟩

/-- A byte is determined by its value. -/
theorem ofNat_eq {n : Nat} (h : n = b.toNat) : UInt8.ofNat n = b := by
  rw [h, UInt8.ofNat_toNat]

/-- The bytes of a character of two bytes. -/
theorem exists_char_two {second : UInt8} (hb : 0xc2 ≤ b.toNat ∧ b.toNat ≤ 0xdf)
    (hsecond : isContinuation second = true) : ∃ c, String.utf8EncodeChar c = [b, second] := by
  have hs := isContinuation_iff.mp hsecond
  obtain ⟨c, hc⟩ : ∃ c : Char, c.toNat = (b.toNat - 0xc0) * 64 + (second.toNat - 0x80) :=
    exists_char (.inl (by omega))
  refine ⟨c, ?_⟩
  rw [utf8EncodeChar_eq, hc, if_neg (by omega), if_pos (by omega),
    continuation_eq hsecond (by omega), ofNat_eq (b := b) (by omega)]

/-- The bytes of a character of three bytes, unless they only look like one. -/
theorem exists_char_three {second third : UInt8} (hb : 0xe0 ≤ b.toNat ∧ b.toNat ≤ 0xef)
    (hsecond : isContinuation second = true) (hthird : isContinuation third = true) :
    Lookalike [b, second, third] ∨ ∃ c, String.utf8EncodeChar c = [b, second, third] := by
  have hs := isContinuation_iff.mp hsecond
  have ht := isContinuation_iff.mp hthird
  by_cases hlow : b.toNat = 0xe0 ∧ second.toNat < 0xa0
  · obtain rfl : b = 0xe0 := UInt8.toNat_inj.mp hlow.1
    exact .inl (.overlongThree hsecond hthird (UInt8.lt_iff_toNat_lt.mpr hlow.2))
  by_cases hhigh : b.toNat = 0xed ∧ 0xa0 ≤ second.toNat
  · obtain rfl : b = 0xed := UInt8.toNat_inj.mp hhigh.1
    exact .inl (.surrogate hsecond hthird (UInt8.le_iff_toNat_le.mpr hhigh.2))
  obtain ⟨c, hc⟩ : ∃ c : Char, c.toNat =
      (b.toNat - 0xe0) * 4096 + (second.toNat - 0x80) * 64 + (third.toNat - 0x80) :=
    exists_char (by omega)
  refine .inr ⟨c, ?_⟩
  rw [utf8EncodeChar_eq, hc, if_neg (by omega), if_neg (by omega), if_pos (by omega),
    continuation_eq hsecond (by omega), continuation_eq hthird (by omega),
    ofNat_eq (b := b) (by omega)]

/-- The bytes of a character of four bytes, unless they only look like one. -/
theorem exists_char_four {second third fourth : UInt8} (hb : 0xf0 ≤ b.toNat ∧ b.toNat ≤ 0xf4)
    (hsecond : isContinuation second = true) (hthird : isContinuation third = true)
    (hfourth : isContinuation fourth = true) : Lookalike [b, second, third, fourth] ∨
      ∃ c, String.utf8EncodeChar c = [b, second, third, fourth] := by
  have hs := isContinuation_iff.mp hsecond
  have ht := isContinuation_iff.mp hthird
  have hf := isContinuation_iff.mp hfourth
  by_cases hlow : b.toNat = 0xf0 ∧ second.toNat < 0x90
  · obtain rfl : b = 0xf0 := UInt8.toNat_inj.mp hlow.1
    exact .inl (.overlongFour hsecond hthird hfourth (UInt8.lt_iff_toNat_lt.mpr hlow.2))
  by_cases hhigh : b.toNat = 0xf4 ∧ 0x90 ≤ second.toNat
  · obtain rfl : b = 0xf4 := UInt8.toNat_inj.mp hhigh.1
    exact .inl (.beyondLast hsecond hthird hfourth (UInt8.le_iff_toNat_le.mpr hhigh.2))
  obtain ⟨c, hc⟩ : ∃ c : Char, c.toNat = (b.toNat - 0xf0) * 262144 +
      (second.toNat - 0x80) * 4096 + (third.toNat - 0x80) * 64 + (fourth.toNat - 0x80) :=
    exists_char (by omega)
  refine .inr ⟨c, ?_⟩
  rw [utf8EncodeChar_eq, hc, if_neg (by omega), if_neg (by omega), if_neg (by omega),
    continuation_eq hsecond (by omega), continuation_eq hthird (by omega),
    continuation_eq hfourth (by omega), ofNat_eq (b := b) (by omega)]

/-- A byte that announces others announces up to three. -/
theorem announced_cases (b : UInt8) : announcedWidth b = 1 ∨
    announcedWidth b = 2 ∧ 0xc2 ≤ b.toNat ∧ b.toNat ≤ 0xdf ∨
    announcedWidth b = 3 ∧ 0xe0 ≤ b.toNat ∧ b.toNat ≤ 0xef ∨
    announcedWidth b = 4 ∧ 0xf0 ≤ b.toNat ∧ b.toNat ≤ 0xf4 := by
  simp only [announcedWidth, Bool.and_eq_true, decide_eq_true_eq, UInt8.le_iff_toNat_le]
  split_ifs with htwo hthree hfour
  · exact .inr (.inl ⟨rfl, htwo⟩)
  · exact .inr (.inr (.inl ⟨rfl, hthree⟩))
  · exact .inr (.inr (.inr ⟨rfl, hfour⟩))
  · exact .inl rfl

/-- A byte with the continuation bytes that it announces looks like a character or is one. -/
theorem exists_char_of_announced (hne : bytes ≠ []) (hlen : bytes.length + 1 = announcedWidth b)
    (h : ∀ x ∈ bytes, isContinuation x = true) :
    Lookalike (b :: bytes) ∨ ∃ c, String.utf8EncodeChar c = b :: bytes := by
  rcases announced_cases b with hone | ⟨htwo, hb⟩ | ⟨hthree, hb⟩ | ⟨hfour, hb⟩
  · exact absurd (List.length_eq_zero_iff.mp (by omega)) hne
  · obtain ⟨second, rfl⟩ := List.length_eq_one_iff.mp (show bytes.length = 1 by omega)
    exact .inr (exists_char_two hb (h second (by simp)))
  · obtain ⟨second, third, rfl⟩ := List.length_eq_two.mp (show bytes.length = 2 by omega)
    exact exists_char_three hb (h second (by simp)) (h third (by simp))
  · obtain ⟨second, third, fourth, rfl⟩ :=
      List.length_eq_three.mp (show bytes.length = 3 by omega)
    exact exists_char_four hb (h second (by simp)) (h third (by simp)) (h fourth (by simp))

/-- Where neither a character nor bytes that look like one start, a step is one byte wide. -/
theorem stepWidth_eq_one (hchar : ∀ other, ¬ CharAhead (b :: rest) other)
    (hlook : ∀ bytes, Lookalike bytes → ¬ bytes <+: b :: rest) : stepWidth b rest = 1 := by
  rcases stepWidth_cases b rest with hone | ⟨bytes, tail, rfl, hlen, hbytes⟩
  · exact hone
  by_cases hne : bytes = []
  · subst hne
    exact stepWidth_of_announced hlen hbytes
  rcases exists_char_of_announced hne hlen hbytes with h | ⟨c, hc⟩
  · exact absurd ⟨tail, rfl⟩ (hlook _ h)
  · exact absurd ⟨c, hc ▸ ⟨tail, rfl⟩, rfl⟩ (hchar _)

/-- A step is that over a character, or over one byte where none starts, unless the bytes look like
a character and are none. -/
theorem isStep_stepWidth_iff : IsStep (b :: rest) (stepWidth b rest) ↔
    ¬ ∃ bytes, Lookalike bytes ∧ bytes <+: b :: rest := by
  constructor
  · rintro h ⟨bytes, hlook, hbytes⟩
    rcases h with hchar | ⟨-, hone⟩
    · exact hlook.not_charAhead hbytes hchar
    · rw [hlook.stepWidth_eq hbytes] at hone
      cases hlook <;> cases hone
  · intro h
    by_cases hchar : ∃ width, CharAhead (b :: rest) width
    · obtain ⟨width, hwidth⟩ := hchar
      exact .inl (hwidth.stepWidth_eq ▸ hwidth)
    · rw [not_exists] at hchar
      exact .inr ⟨hchar, stepWidth_eq_one hchar fun bytes hlook hbytes => h ⟨bytes, hlook, hbytes⟩⟩

end Utf8

namespace Pattern

open Utf8 (IsStep Lookalike)

variable {input : Bytes} {pos maxDepth depth : Nat} {run : Run}

/-- The pattern for one character consumes a step. -/
theorem eval_any {b : UInt8} {rest : Bytes} (h : input.drop pos = b :: rest)
    (hsteps : run.steps ≠ 0) : Pattern.any.eval maxDepth depth (.within input pos) run =
      (.matched (.within input (pos + Utf8.stepWidth b rest)), run.tick) := by
  rw [eval, if_neg hsteps]
  simp only [Place.bytes_within, h, consume, if_true, Place.advance_within]

/-- Before the end of the input the pattern for one character consumes the well-formed character
that starts there, and one byte where none starts, except where bytes start that look like a
character and are none: of these it consumes all. -/
theorem any_consumes_step (hpos : pos < input.length) (hsteps : run.steps ≠ 0) :
    ∃ width, Pattern.any.eval maxDepth depth (.within input pos) run =
        (.matched (.within input (pos + width)), run.tick) ∧
      (IsStep (input.drop pos) width ↔ ¬ ∃ bytes, Lookalike bytes ∧ bytes <+: input.drop pos) ∧
      ∀ bytes, Lookalike bytes → bytes <+: input.drop pos → width = bytes.length := by
  have h := List.drop_eq_getElem_cons hpos
  refine ⟨_, eval_any h hsteps, ?_⟩
  rw [h]
  exact ⟨Utf8.isStep_stepWidth_iff, fun bytes hlook hbytes => hlook.stepWidth_eq hbytes⟩

/-- A euro sign behind a letter is consumed as a whole. -/
theorem any_consumes_step_euro : 1 < ([0x61, 0xe2, 0x82, 0xac] : Bytes).length ∧
    ∃ width, Pattern.any.eval 1 0 (.within [0x61, 0xe2, 0x82, 0xac] 1) { steps := 1, room := 0 } =
        (.matched (.within [0x61, 0xe2, 0x82, 0xac] (1 + width)), { steps := 0, room := 0 }) ∧
      IsStep [0xe2, 0x82, 0xac] width := by
  have hpos : 1 < ([0x61, 0xe2, 0x82, 0xac] : Bytes).length := by decide
  have hsteps : ({ steps := 1, room := 0 } : Run).steps ≠ 0 := by decide
  obtain ⟨width, heval, hstep, -⟩ := @any_consumes_step _ _ 1 0 _ hpos hsteps
  refine ⟨hpos, width, heval, hstep.mpr ?_⟩
  rintro ⟨bytes, hlook, tail, htail⟩
  cases hlook <;> cases htail

/-- The null character in three bytes is no well-formed character, and is not consumed byte by
byte. -/
theorem not_any_consumes_step_overlong :
    Pattern.any.eval 1 0 (.within [0xe0, 0x80, 0x80] 0) { steps := 1, room := 0 } =
        (.matched (.within [0xe0, 0x80, 0x80] (0 + 3)), { steps := 0, room := 0 }) ∧
      ¬ IsStep [0xe0, 0x80, 0x80] 3 := by
  have hlook : Lookalike [0xe0, 0x80, 0x80] := .overlongThree rfl rfl (by decide)
  refine ⟨rfl, fun h => ?_⟩
  have hiff : IsStep [0xe0, 0x80, 0x80] (Utf8.stepWidth 0xe0 [0x80, 0x80]) ↔ _ :=
    Utf8.isStep_stepWidth_iff
  exact hiff.mp h ⟨_, hlook, List.prefix_refl _⟩

end Pattern

end PatternEngine
