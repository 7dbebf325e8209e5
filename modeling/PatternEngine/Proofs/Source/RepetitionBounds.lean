import PatternEngine.Expr.Parser
import PatternEngine.Proofs.Source.Lexemes

/-!
# Repetition bounds

Behind an operand, braces around one or two decimal numerals, of which the one is an exact number of
copies, and the other two with a comma between them are the ends of a range, either of which may be
missing, are repetition bounds. There may be spaces around numerals.

The reader leaves the spaces out before it looks at the numerals. So it accepts exactly these bounds
and, beyond them, numerals with spaces between their digits and a comma without a numeral. All other
braces either are a fault or are left alone, so that a group is read there.
-/

namespace PatternEngine

/-- The decimal digit of a number below ten. -/
def Ascii.decimalDigit (d : Nat) : UInt8 := UInt8.ofNat (0x30 + d)

theorem Ascii.isDigit_decimalDigit : ∀ d < 10, isDigit (decimalDigit d) = true := by decide

theorem Ascii.toNat_decimalDigit : ∀ d < 10, (decimalDigit d).toNat - 0x30 = d := by decide

/-- A digit is written for a number below ten. -/
theorem Ascii.exists_decimalDigit {b : UInt8} (h : isDigit b = true) :
    ∃ d < 10, b = decimalDigit d := by
  simp only [isDigit, Bool.and_eq_true, decide_eq_true_eq, UInt8.le_iff_toNat_le,
    UInt8.reduceToNat] at h
  refine ⟨b.toNat - 0x30, by omega, ?_⟩
  rw [decimalDigit, Nat.add_sub_cancel' h.1, UInt8.ofNat_toNat]

/-! ## Pieces between separators -/

namespace Bytes

variable {separator : UInt8} {bytes piece lower upper : Bytes}

/-- A text is one piece where the separator does not occur. -/
theorem splitOn_eq_singleton_iff :
    splitOn separator bytes = [piece] ↔ bytes = piece ∧ separator ∉ piece := by
  constructor
  · intro h
    by_cases hmem : separator ∈ bytes
    · obtain ⟨before, behind, rfl, hbefore⟩ := List.eq_append_cons_of_mem hmem
      rw [splitOn_append, splitOn_of_not_mem hbefore, List.singleton_append, List.cons.injEq] at h
      exact absurd h.2 (splitOn_ne_nil separator behind)
    · rw [splitOn_of_not_mem hmem, List.singleton_inj] at h
      exact ⟨h, h ▸ hmem⟩
  · rintro ⟨rfl, hmem⟩
    exact splitOn_of_not_mem hmem

/-- A text is two pieces where the separator occurs once. -/
theorem splitOn_eq_pair_iff : splitOn separator bytes = [lower, upper] ↔
    bytes = lower ++ separator :: upper ∧ separator ∉ lower ∧ separator ∉ upper := by
  constructor
  · intro h
    by_cases hmem : separator ∈ bytes
    · obtain ⟨before, behind, rfl, hbefore⟩ := List.eq_append_cons_of_mem hmem
      rw [splitOn_append, splitOn_of_not_mem hbefore, List.singleton_append, List.cons.injEq,
        splitOn_eq_singleton_iff] at h
      obtain ⟨rfl, rfl, hupper⟩ := h
      exact ⟨rfl, hbefore, hupper⟩
    · rw [splitOn_of_not_mem hmem] at h
      cases h
  · rintro ⟨rfl, hlower, hupper⟩
    rw [splitOn_append, splitOn_of_not_mem hlower, splitOn_of_not_mem hupper, List.singleton_append]

/-- Bytes other than the separator may be left out before a text is cut or after that. -/
theorem splitOn_filter {p : UInt8 → Bool} (hp : p separator = true) (bytes : Bytes) :
    splitOn separator (bytes.filter p) = (splitOn separator bytes).map (List.filter p) := by
  induction bytes with
  | nil => rfl
  | cons b bytes ih =>
    obtain ⟨piece, pieces, hpieces⟩ :=
      List.exists_cons_of_ne_nil (splitOn_ne_nil separator bytes)
    rw [hpieces, List.map_cons] at ih
    by_cases hb : b = separator
    · subst hb
      simp [splitOn, hp, hpieces, ih]
    · by_cases hkept : p b = true
      · simp [splitOn, hkept, hb, hpieces, ih]
      · simp [splitOn, hkept, hb, hpieces, ih]

end Bytes

namespace Bounds

open PatternEngine.Expr (repetitionMark repeated)

/-! ## What is written -/

/-- Nothing but spaces. -/
def Spaces (text : Bytes) : Prop := ∀ b ∈ text, b = 0x20

/-- Decimal digits, and the number that they write. -/
inductive Numeral : Bytes → Nat → Prop
  | digit {d : Nat} (hd : d < 10) : Numeral [Ascii.decimalDigit d] d
  | snoc {digits : Bytes} {n d : Nat} (h : Numeral digits n) (hd : d < 10) :
      Numeral (digits ++ [Ascii.decimalDigit d]) (10 * n + d)

/-- A numeral with spaces around it, whose number fits in 32 bits. -/
def Padded (text : Bytes) (n : Nat) : Prop :=
  n < UInt32.size ∧ ∃ before digits after, Spaces before ∧ Numeral digits n ∧ Spaces after ∧
    text = before ++ (digits ++ after)

/-- A numeral with spaces around it and between its digits, whose number fits in 32 bits. -/
def Scattered (text : Bytes) (n : Nat) : Prop :=
  n < UInt32.size ∧ Numeral (text.filter (· != 0x20)) n

/-- What stands between the braces, and the least and the greatest number of copies it means. -/
inductive Written (numeral : Bytes → Nat → Prop) : Bytes → Nat → Option Nat → Prop
  /-- As many copies as the numeral says. -/
  | exact {text : Bytes} {n : Nat} (h : numeral text n) : Written numeral text n (some n)
  /-- No fewer copies than the numeral says. -/
  | atLeast {lower upper : Bytes} {n : Nat} (h : numeral lower n) (hupper : Spaces upper) :
      Written numeral (lower ++ 0x2c :: upper) n none
  /-- No more copies than the numeral says. -/
  | atMost {lower upper : Bytes} {m : Nat} (hlower : Spaces lower) (h : numeral upper m) :
      Written numeral (lower ++ 0x2c :: upper) 0 (some m)
  /-- No fewer copies than the first numeral says and no more than the second does. -/
  | between {lower upper : Bytes} {n m : Nat} (h : numeral lower n) (h' : numeral upper m)
      (hle : n ≤ m) : Written numeral (lower ++ 0x2c :: upper) n (some m)

/-- A comma without a numeral. -/
def LoneComma (text : Bytes) : Prop :=
  ∃ before after, Spaces before ∧ Spaces after ∧ text = before ++ 0x2c :: after

/-- There are spaces between two digits. -/
def SplitNumeral (text : Bytes) : Prop :=
  ∃ first gap second, Ascii.isDigit first = true ∧ Ascii.isDigit second = true ∧ Spaces gap ∧
    gap ≠ [] ∧ (first :: (gap ++ [second])) <:+: text

/-- What is read between the braces, and the numbers that it is read as. -/
def ReadAs (text : Bytes) (least : Nat) (most : Option Nat) : Prop :=
  Written Scattered text least most ∨ LoneComma text ∧ least = 0 ∧ most = none

/-- From a cursor on there are braces around a text, and the second cursor is behind them. -/
def Braces (c : Cursor) (inside : Bytes) (d : Cursor) : Prop :=
  ∃ tail, c.rest = 0x7b :: (inside ++ 0x7d :: tail) ∧ d = ⟨c.pos + (inside.length + 2), tail⟩

/-- The braces that the first cursor is at are read as bounds up to the second, and what goes on
there is a repetition of the operand, which takes one of the levels that are left. -/
structure Applies (operand : Expr) (c : Cursor) (least : Nat) (most : Option Nat)
    (d : Cursor) : Prop where
  mark : repetitionMark c = .ok (some (least, most), d)
  repeated_succ : ∀ levels,
    repeated (levels + 1) operand c = repeated levels (.repetition operand least most) d
  repeated_zero : repeated 0 operand c = d.fail .nestingTooDeep

variable {text inside lower upper digits : Bytes} {n least : Nat} {most : Option Nat}
  {c d : Cursor}

/-! ## Numerals -/

theorem decimal_concat (digits : Bytes) (b : UInt8) :
    decimal (digits ++ [b]) = 10 * decimal digits + (b.toNat - 0x30) := by
  simp [decimal]

/-- Numerals are the texts of digits, and their numbers are those that the reader works out. -/
theorem numeral_iff : Numeral digits n ↔
    digits ≠ [] ∧ (∀ b ∈ digits, Ascii.isDigit b = true) ∧ decimal digits = n := by
  constructor
  · intro h
    induction h with
    | @digit d hd =>
      refine ⟨List.cons_ne_nil _ _, by simp [Ascii.isDigit_decimalDigit d hd], ?_⟩
      simp [decimal, Ascii.toNat_decimalDigit d hd]
    | @snoc digits n d h hd ih =>
      obtain ⟨-, hdigits, hn⟩ := ih
      refine ⟨by simp, ?_, ?_⟩
      · simpa [or_imp, forall_and, Ascii.isDigit_decimalDigit d hd] using hdigits
      · rw [decimal_concat, hn, Ascii.toNat_decimalDigit d hd]
  · rintro ⟨hne, hdigits, rfl⟩
    induction digits using List.reverseRecOn with
    | nil => exact absurd rfl hne
    | append_singleton digits b ih =>
      obtain ⟨d, hd, rfl⟩ := Ascii.exists_decimalDigit (hdigits b (by simp))
      rw [decimal_concat, Ascii.toNat_decimalDigit d hd]
      by_cases hnil : digits = []
      · subst hnil
        simpa [decimal] using Numeral.digit hd
      · exact .snoc (ih hnil fun b hb => hdigits b (by simp [hb])) hd

theorem Numeral.ne_nil (h : Numeral digits n) : digits ≠ [] := (numeral_iff.mp h).1

theorem Numeral.isDigit (h : Numeral digits n) : ∀ b ∈ digits, Ascii.isDigit b = true :=
  (numeral_iff.mp h).2.1

theorem ne_space_of_isDigit {b : UInt8} (h : Ascii.isDigit b = true) : b ≠ 0x20 := by
  rintro rfl
  exact absurd h (by decide)

theorem ne_comma_of_isDigit {b : UInt8} (h : Ascii.isDigit b = true) : b ≠ 0x2c := by
  rintro rfl
  exact absurd h (by decide)

theorem filter_digits (h : ∀ b ∈ digits, Ascii.isDigit b = true) :
    digits.filter (· != 0x20) = digits :=
  List.filter_eq_self.mpr fun b hb => bne_iff_ne.mpr (ne_space_of_isDigit (h b hb))

/-- Without spaces nothing is left of spaces. -/
theorem filter_eq_nil_iff_spaces : text.filter (· != 0x20) = [] ↔ Spaces text := by
  simp [Spaces, List.filter_eq_nil_iff]

theorem filter_comma (lower upper : Bytes) : (lower ++ 0x2c :: upper).filter (· != 0x20) =
    lower.filter (· != 0x20) ++ 0x2c :: upper.filter (· != 0x20) := by
  rw [List.filter_append, List.filter_cons_of_pos (by decide)]

theorem Scattered.isDigit_or_space (h : Scattered text n) :
    ∀ b ∈ text, Ascii.isDigit b = true ∨ b = 0x20 := by
  intro b hb
  by_cases hspace : b = 0x20
  · exact .inr hspace
  · exact .inl (h.2.isDigit b (List.mem_filter.mpr ⟨hb, bne_iff_ne.mpr hspace⟩))

theorem Scattered.comma_not_mem (h : Scattered text n) : 0x2c ∉ text := by
  intro hmem
  rcases h.isDigit_or_space _ hmem with hdigit | hspace
  · exact ne_comma_of_isDigit hdigit rfl
  · exact absurd hspace (by decide)

theorem Spaces.comma_not_mem (h : Spaces text) : 0x2c ∉ text := by
  intro hmem
  exact absurd (h _ hmem) (by decide)

theorem Padded.scattered (h : Padded text n) : Scattered text n := by
  obtain ⟨hn, before, digits, after, hbefore, hdigits, hafter, rfl⟩ := h
  refine ⟨hn, ?_⟩
  rw [List.filter_append, List.filter_append, filter_eq_nil_iff_spaces.mpr hbefore,
    filter_eq_nil_iff_spaces.mpr hafter, filter_digits hdigits.isDigit, List.nil_append,
    List.append_nil]
  exact hdigits

theorem Scattered.not_spaces (h : Scattered text n) : ¬ Spaces text := fun hspaces =>
  h.2.ne_nil (filter_eq_nil_iff_spaces.mpr hspaces)

/-! ## Numerals with spaces between their digits -/

theorem SplitNumeral.of_part {text' : Bytes} (h : SplitNumeral text) (hpart : text <:+: text') :
    SplitNumeral text' := by
  obtain ⟨first, gap, second, hfirst, hsecond, hgap, hne, hin⟩ := h
  exact ⟨first, gap, second, hfirst, hsecond, hgap, hne, hin.trans hpart⟩

theorem SplitNumeral.not_spaces (h : SplitNumeral text) : ¬ Spaces text := by
  obtain ⟨first, gap, second, hfirst, -, -, -, hin⟩ := h
  intro hspaces
  exact ne_space_of_isDigit hfirst (hspaces first (hin.subset List.mem_cons_self))

/-- A byte in front of a text begins a split numeral only if it is a digit in front of a space. -/
theorem SplitNumeral.of_cons {b : UInt8} (h : SplitNumeral (b :: text)) :
    SplitNumeral text ∨ Ascii.isDigit b = true ∧ text.head? = some 0x20 ∧ ¬ Spaces text := by
  obtain ⟨first, gap, second, hfirst, hsecond, hgap, hne, hin⟩ := h
  rcases List.infix_cons_iff.mp hin with hprefix | hin
  · obtain ⟨rfl, tail, rfl⟩ := List.cons_prefix_cons.mp hprefix
    obtain ⟨space, gap, rfl⟩ := List.exists_cons_of_ne_nil hne
    obtain rfl := hgap space List.mem_cons_self
    refine .inr ⟨hfirst, rfl, fun hspaces => ?_⟩
    exact ne_space_of_isDigit hsecond (hspaces second (by simp))
  · exact .inl ⟨first, gap, second, hfirst, hsecond, hgap, hne, hin⟩

/-- Around a numeral there are spaces, but none between its digits. -/
theorem Padded.not_splitNumeral (h : Padded text n) : ¬ SplitNumeral text := by
  obtain ⟨-, before, digits, after, hbefore, hdigits, hafter, rfl⟩ := h
  replace hdigits := hdigits.isDigit
  have hbehind : ¬ SplitNumeral (digits ++ after) := by
    induction digits with
    | nil => exact fun h => h.not_spaces hafter
    | cons b digits ih =>
      intro h
      rcases h.of_cons with h | ⟨-, hspace, hother⟩
      · exact ih (fun b hb => hdigits b (List.mem_cons_of_mem _ hb)) h
      · cases digits with
        | nil => exact hother hafter
        | cons b' digits =>
          exact ne_space_of_isDigit (hdigits b' (by simp)) (Option.some.inj hspace)
  induction before with
  | nil => exact hbehind
  | cons b before ih =>
    intro h
    rcases h.of_cons with h | ⟨hdigit, -, -⟩
    · exact ih (fun b hb => hbefore b (List.mem_cons_of_mem _ hb)) h
    · exact ne_space_of_isDigit hdigit (hbefore b List.mem_cons_self)

/-- Spaces between two digits are not interrupted by a comma. -/
theorem SplitNumeral.of_comma (h : SplitNumeral (lower ++ 0x2c :: upper)) :
    SplitNumeral lower ∨ SplitNumeral upper := by
  obtain ⟨first, gap, second, hfirst, hsecond, hgap, hne, hin⟩ := h
  have hcomma : 0x2c ∉ first :: (gap ++ [second]) := by
    simp only [List.mem_cons, List.mem_append, List.not_mem_nil, or_false, not_or]
    exact ⟨(ne_comma_of_isDigit hfirst).symm, hgap.comma_not_mem,
      (ne_comma_of_isDigit hsecond).symm⟩
  rcases List.infix_append_iff.mp hin with hlower | hupper | ⟨start, rest, heq, hstart, hrest⟩
  · exact .inl ⟨first, gap, second, hfirst, hsecond, hgap, hne, hlower⟩
  · rcases List.infix_cons_iff.mp hupper with hprefix | hupper
    · exact absurd (List.cons_prefix_cons.mp hprefix).1 (ne_comma_of_isDigit hfirst)
    · exact .inr ⟨first, gap, second, hfirst, hsecond, hgap, hne, hupper⟩
  · cases rest with
    | nil =>
      rw [List.append_nil] at heq
      exact .inl ⟨first, gap, second, hfirst, hsecond, hgap, hne, heq ▸ hstart.isInfix⟩
    | cons b rest =>
      obtain ⟨rfl, -⟩ := List.cons_prefix_cons.mp hrest
      exact absurd (by rw [heq]; simp) hcomma

/-- Where no spaces are between two digits, spaces are around the digits. -/
theorem exists_padding (h : ∀ b ∈ text, Ascii.isDigit b = true ∨ b = 0x20)
    (hsplit : ¬ SplitNumeral text) : ∃ before digits after, Spaces before ∧
      (∀ b ∈ digits, Ascii.isDigit b = true) ∧ Spaces after ∧
      text = before ++ (digits ++ after) := by
  induction text with
  | nil => exact ⟨[], [], [], by simp [Spaces], by simp, by simp [Spaces], rfl⟩
  | cons b text ih =>
    obtain ⟨hb, htext⟩ := List.forall_mem_cons.mp h
    obtain ⟨before, digits, after, hbefore, hdigits, hafter, rfl⟩ :=
      ih htext fun h => hsplit (h.of_part (List.suffix_cons b text).isInfix)
    rcases hb with hb | rfl
    · cases before with
      | nil => exact ⟨[], b :: digits, after, by simp [Spaces],
          List.forall_mem_cons.mpr ⟨hb, hdigits⟩, hafter, rfl⟩
      | cons space before =>
        cases digits with
        | nil =>
          refine ⟨[], [b], space :: before ++ after, by simp [Spaces], by simpa using hb, ?_, rfl⟩
          exact List.forall_mem_append.mpr ⟨hbefore, hafter⟩
        | cons b' digits =>
          refine absurd ⟨b, space :: before, b', hb, hdigits b' List.mem_cons_self, hbefore,
            List.cons_ne_nil _ _, [], digits ++ after, ?_⟩ hsplit
          simp
    · exact ⟨0x20 :: before, digits, after, List.forall_mem_cons.mpr ⟨rfl, hbefore⟩, hdigits,
        hafter, rfl⟩

/-- A numeral without spaces between its digits has spaces around it only. -/
theorem Scattered.padded (h : Scattered text n) (hsplit : ¬ SplitNumeral text) :
    Padded text n := by
  obtain ⟨before, digits, after, hbefore, hdigits, hafter, rfl⟩ :=
    exists_padding h.isDigit_or_space hsplit
  obtain ⟨hn, hnumeral⟩ := h
  refine ⟨hn, before, digits, after, hbefore, ?_, hafter, rfl⟩
  rwa [List.filter_append, List.filter_append, filter_eq_nil_iff_spaces.mpr hbefore,
    filter_eq_nil_iff_spaces.mpr hafter, filter_digits hdigits, List.nil_append,
    List.append_nil] at hnumeral

/-! ## Texts between braces -/

/-- There are spaces between two digits, or there is no numeral. -/
def Irregular (text : Bytes) : Prop := SplitNumeral text ∨ LoneComma text

/-- Where there is a comma without a numeral, nothing but spaces is beside it. -/
theorem LoneComma.spaces (h : LoneComma (lower ++ 0x2c :: upper)) :
    Spaces lower ∧ Spaces upper := by
  obtain ⟨before, after, hbefore, hafter, heq⟩ := h
  have hlen := congrArg (fun text => (text.filter (· != 0x20)).length) heq
  simp only [filter_comma, filter_eq_nil_iff_spaces.mpr hbefore,
    filter_eq_nil_iff_spaces.mpr hafter, List.length_append, List.length_cons,
    List.length_nil] at hlen
  constructor
  · exact filter_eq_nil_iff_spaces.mp (List.length_eq_zero_iff.mp (by omega))
  · exact filter_eq_nil_iff_spaces.mp (List.length_eq_zero_iff.mp (by omega))

namespace Written

theorem scattered (h : Written Padded text least most) : Written Scattered text least most := by
  cases h with
  | exact h => exact .exact h.scattered
  | atLeast h hupper => exact .atLeast h.scattered hupper
  | atMost hlower h => exact .atMost hlower h.scattered
  | between h h' hle => exact .between h.scattered h'.scattered hle

/-- Where no spaces are between two digits, spaces are around numerals only. -/
theorem padded (h : Written Scattered text least most) (hsplit : ¬ SplitNumeral text) :
    Written Padded text least most := by
  have hends {lower upper : Bytes} (h : ¬ SplitNumeral (lower ++ 0x2c :: upper)) :
      ¬ SplitNumeral lower ∧ ¬ SplitNumeral upper :=
    ⟨fun hs => h (hs.of_part (List.prefix_append _ _).isInfix),
      fun hs => h (hs.of_part ((List.suffix_cons _ _).trans (List.suffix_append _ _)).isInfix)⟩
  cases h with
  | exact h => exact .exact (h.padded hsplit)
  | atLeast h hupper => exact .atLeast (h.padded (hends hsplit).1) hupper
  | atMost hlower h => exact .atMost hlower (h.padded (hends hsplit).2)
  | between h h' hle => exact .between (h.padded (hends hsplit).1) (h'.padded (hends hsplit).2) hle

theorem not_splitNumeral (h : Written Padded text least most) : ¬ SplitNumeral text := by
  cases h with
  | exact h => exact h.not_splitNumeral
  | atLeast h hupper =>
    exact fun hs => hs.of_comma.elim h.not_splitNumeral fun hs => hs.not_spaces hupper
  | atMost hlower h =>
    exact fun hs => hs.of_comma.elim (fun hs => hs.not_spaces hlower) h.not_splitNumeral
  | between h h' _ => exact fun hs => hs.of_comma.elim h.not_splitNumeral h'.not_splitNumeral

/-- Beside a comma there is a numeral. -/
theorem not_loneComma (h : Written Scattered text least most) : ¬ LoneComma text := by
  intro hlone
  cases h with
  | exact h =>
    obtain ⟨before, after, -, -, rfl⟩ := hlone
    exact h.comma_not_mem (by simp)
  | atLeast h _ | between h _ _ => exact h.not_spaces hlone.spaces.1
  | atMost _ h => exact h.not_spaces hlone.spaces.2

end Written

/-- Digits, spaces and commas are what the reader looks for between braces. -/
theorem isPart_of_scattered (h : Scattered text n) : ∀ b ∈ text, isPart b = true := by
  intro b hb
  rcases h.isDigit_or_space b hb with hdigit | rfl
  · simp [isPart, hdigit]
  · decide

theorem isPart_of_spaces (h : Spaces text) : ∀ b ∈ text, isPart b = true := by
  intro b hb
  rw [h b hb]
  decide

theorem isPart_of_comma (hlower : ∀ b ∈ lower, isPart b = true)
    (hupper : ∀ b ∈ upper, isPart b = true) : ∀ b ∈ lower ++ 0x2c :: upper, isPart b = true :=
  List.forall_mem_append.mpr ⟨hlower, List.forall_mem_cons.mpr ⟨by decide, hupper⟩⟩

theorem ReadAs.isPart (h : ReadAs text least most) : ∀ b ∈ text, isPart b = true := by
  rcases h with h | ⟨⟨before, after, hbefore, hafter, rfl⟩, -, -⟩
  · cases h with
    | exact h => exact isPart_of_scattered h
    | atLeast h hupper => exact isPart_of_comma (isPart_of_scattered h) (isPart_of_spaces hupper)
    | atMost hlower h => exact isPart_of_comma (isPart_of_spaces hlower) (isPart_of_scattered h)
    | between h h' _ => exact isPart_of_comma (isPart_of_scattered h) (isPart_of_scattered h')
  · exact isPart_of_comma (isPart_of_spaces hbefore) (isPart_of_spaces hafter)

theorem number_of_spaces (h : Spaces text) (c : Cursor) :
    number c (text.filter (· != 0x20)) = .ok none := by
  rw [filter_eq_nil_iff_spaces.mpr h]
  rfl

theorem number_of_scattered (h : Scattered text n) (c : Cursor) :
    number c (text.filter (· != 0x20)) = .ok (some n) := by
  obtain ⟨hne, -, hn⟩ := numeral_iff.mp h.2
  have hlt : n < limit := h.1
  rw [number, if_neg (by simpa only [List.isEmpty_iff] using hne), hn, if_pos hlt]

/-- The number of a bound is none where there is nothing but spaces, and otherwise that of a numeral
with spaces. -/
theorem spaces_or_scattered_of_number {number' : Option Nat}
    (htext : ∀ b ∈ text, isPart b = true) (hcomma : 0x2c ∉ text)
    (h : number c (text.filter (· != 0x20)) = .ok number') :
    number' = none ∧ Spaces text ∨ ∃ n, number' = some n ∧ Scattered text n := by
  rw [number] at h
  split at h
  · rename_i hempty
    cases h
    exact .inl ⟨rfl, filter_eq_nil_iff_spaces.mp (List.isEmpty_iff.mp hempty)⟩
  · rename_i hempty
    split at h
    · rename_i hlt
      cases h
      refine .inr ⟨_, rfl, hlt, numeral_iff.mpr ⟨by simpa only [List.isEmpty_iff] using hempty,
        fun b hb => ?_, rfl⟩⟩
      obtain ⟨hmem, hspace⟩ := List.mem_filter.mp hb
      have hpart := htext b hmem
      have hne : b ≠ 0x2c := fun heq => hcomma (heq ▸ hmem)
      simpa [isPart, hne, bne_iff_ne.mp hspace] using hpart
    · cases h

/-- What is between braces is read as the bounds that are written there. -/
theorem ofBody_of_readAs (h : ReadAs text least most) (c : Cursor) :
    ofBody c (text.filter (· != 0x20)) = .ok (least, most) := by
  have hpair {lower upper : Bytes} (hlower : 0x2c ∉ lower) (hupper : 0x2c ∉ upper) :
      Bytes.splitOn 0x2c ((lower ++ 0x2c :: upper).filter (· != 0x20)) =
        [lower.filter (· != 0x20), upper.filter (· != 0x20)] := by
    rw [Bytes.splitOn_filter (by decide), Bytes.splitOn_eq_pair_iff.mpr ⟨rfl, hlower, hupper⟩]
    rfl
  rw [ofBody]
  rcases h with h | ⟨⟨before, after, hbefore, hafter, rfl⟩, rfl, rfl⟩
  · cases h with
    | exact h =>
      have hsplit : Bytes.splitOn 0x2c (text.filter (· != 0x20)) = [text.filter (· != 0x20)] := by
        rw [Bytes.splitOn_filter (by decide),
          Bytes.splitOn_eq_singleton_iff.mpr ⟨rfl, h.comma_not_mem⟩]
        rfl
      rw [hsplit]
      dsimp only
      rw [if_neg (by simpa only [List.isEmpty_iff] using h.2.ne_nil), number_of_scattered h]
      rfl
    | atLeast h hupper =>
      rw [hpair h.comma_not_mem hupper.comma_not_mem]
      dsimp only
      rw [number_of_scattered h, number_of_spaces hupper]
      rfl
    | atMost hlower h =>
      rw [hpair hlower.comma_not_mem h.comma_not_mem]
      dsimp only
      rw [number_of_spaces hlower, number_of_scattered h]
      rfl
    | between h h' hle =>
      rw [hpair h.comma_not_mem h'.comma_not_mem]
      dsimp only
      rw [number_of_scattered h, number_of_scattered h']
      simp [bind, Except.bind, Nat.not_lt.mpr hle]
  · rw [hpair hbefore.comma_not_mem hafter.comma_not_mem]
    dsimp only
    rw [number_of_spaces hbefore, number_of_spaces hafter]
    rfl

/-- Nothing else is read between braces. -/
theorem readAs_of_ofBody (htext : ∀ b ∈ text, isPart b = true)
    (h : ofBody c (text.filter (· != 0x20)) = .ok (least, most)) : ReadAs text least most := by
  rw [ofBody, Bytes.splitOn_filter (by decide)] at h
  cases hsplit : Bytes.splitOn 0x2c text with
  | nil => exact absurd hsplit (Bytes.splitOn_ne_nil _ _)
  | cons lower pieces =>
    rw [hsplit] at h
    match pieces, hsplit with
    | [], hsplit =>
      obtain ⟨rfl, hcomma⟩ := Bytes.splitOn_eq_singleton_iff.mp hsplit
      simp only [List.map_cons, List.map_nil] at h
      split at h
      · cases h
      · rename_i hempty
        obtain ⟨n, hn, h⟩ := Except.exists_of_bind_eq_ok h
        cases h
        rcases spaces_or_scattered_of_number htext hcomma hn with
          ⟨rfl, hspaces⟩ | ⟨n, rfl, hnumeral⟩
        · exact absurd (List.isEmpty_iff.mpr (filter_eq_nil_iff_spaces.mpr hspaces)) hempty
        · exact .inl (.exact hnumeral)
    | [upper], hsplit =>
      obtain ⟨rfl, hlower, hupper⟩ := Bytes.splitOn_eq_pair_iff.mp hsplit
      obtain ⟨hlowerParts, hupperParts⟩ := List.forall_mem_append.mp htext
      replace hupperParts := (List.forall_mem_cons.mp hupperParts).2
      simp only [List.map_cons, List.map_nil] at h
      obtain ⟨lower', hlower', h⟩ := Except.exists_of_bind_eq_ok h
      obtain ⟨upper', hupper', h⟩ := Except.exists_of_bind_eq_ok h
      replace hlower := spaces_or_scattered_of_number hlowerParts hlower hlower'
      replace hupper := spaces_or_scattered_of_number hupperParts hupper hupper'
      split at h
      · cases h
      · rename_i hreversed
        cases h
        rcases hlower with ⟨rfl, hlower⟩ | ⟨n, rfl, hlower⟩
        · rcases hupper with ⟨rfl, hupper⟩ | ⟨m, rfl, hupper⟩
          · exact .inr ⟨⟨_, _, hlower, hupper, rfl⟩, rfl, rfl⟩
          · exact .inl (.atMost hlower hupper)
        · rcases hupper with ⟨rfl, hupper⟩ | ⟨m, rfl, hupper⟩
          · exact .inl (.atLeast hlower hupper)
          · exact .inl (.between hlower hupper (by simpa using hreversed))
    | _ :: _ :: _, _ => cases h

/-- Bounds are written between the braces exactly where what is read there is regular. -/
theorem written_padded_iff :
    Written Padded text least most ↔ ReadAs text least most ∧ ¬ Irregular text := by
  constructor
  · intro h
    refine ⟨.inl h.scattered, ?_⟩
    rintro (hsplit | hlone)
    · exact h.not_splitNumeral hsplit
    · exact h.scattered.not_loneComma hlone
  · rintro ⟨h | ⟨hlone, -, -⟩, hregular⟩
    · exact h.padded fun hsplit => hregular (.inl hsplit)
    · exact absurd (.inr hlone) hregular

/-! ## Braces behind an operand -/

variable {pos : Nat}

/-- Bounds are read where the braces are closed behind what may stand in bounds. -/
theorem bounds_of_braces (hinside : ∀ b ∈ inside, isPart b = true) (tail : Bytes) :
    bounds ⟨pos, 0x7b :: (inside ++ 0x7d :: tail)⟩ = (do
      let pair ← ofBody ⟨pos, 0x7b :: (inside ++ 0x7d :: tail)⟩ (inside.filter (· != 0x20))
      .ok (some pair, ⟨pos + (inside.length + 2), tail⟩)) := by
  have hstop : ((0x7d : UInt8) :: tail).takeWhile isPart = [] :=
    List.takeWhile_cons_of_neg (by decide)
  have hrun : (inside ++ 0x7d :: tail).takeWhile isPart = inside := by
    rw [List.takeWhile_append_of_pos hinside, hstop, List.append_nil]
  simp only [bounds, List.drop_succ_cons, List.drop_zero, hrun]
  simp [Cursor.advance, Cursor.peek?, Nat.add_comm 1, Nat.add_assoc]

/-- Where they are not, the brace is left alone. -/
theorem bounds_of_no_braces
    (h : ∀ inside tail, (∀ b ∈ inside, isPart b = true) → text ≠ inside ++ 0x7d :: tail) :
    bounds ⟨pos, 0x7b :: text⟩ = .ok (none, ⟨pos, 0x7b :: text⟩) := by
  have hopen : (text.dropWhile isPart).head? ≠ some 0x7d := by
    intro hhead
    obtain ⟨tail, htail⟩ := List.head?_eq_some_iff.mp hhead
    exact h _ tail (fun b hb => List.mem_takeWhile_imp hb)
      (by rw [← htail, List.takeWhile_append_dropWhile])
  simp only [bounds, List.drop_succ_cons, List.drop_zero]
  rw [if_neg]
  simpa [Cursor.advance, Cursor.peek?, Nat.add_comm 1, Bytes.drop_length_takeWhile] using hopen

theorem number_cases (c : Cursor) (digits : Bytes) :
    (∃ n, number c digits = .ok n) ∨ number c digits = c.fail .boundTooLarge := by
  unfold number
  split
  · exact .inl ⟨_, rfl⟩
  · split
    · exact .inl ⟨_, rfl⟩
    · exact .inr rfl

/-- Where bounds are not read between braces, the fault is at the opening one. -/
theorem ofBody_cases (c : Cursor) (body : Bytes) :
    (∃ pair, ofBody c body = .ok pair) ∨ ∃ cause, ofBody c body = c.fail cause := by
  unfold ofBody
  split
  · rename_i exact _
    split
    · exact .inr ⟨_, rfl⟩
    · rcases number_cases c exact with ⟨n, hn⟩ | hn
      · exact .inl ⟨_, Except.bind_of_eq_ok hn⟩
      · exact .inr ⟨_, by rw [hn]; rfl⟩
  · rename_i lower upper _
    rcases number_cases c lower with ⟨n, hn⟩ | hn
    · rcases number_cases c upper with ⟨m, hm⟩ | hm
      · rw [Except.bind_of_eq_ok hn, Except.bind_of_eq_ok hm]
        split
        · exact .inr ⟨_, rfl⟩
        · exact .inl ⟨_, rfl⟩
      · exact .inr ⟨_, by rw [Except.bind_of_eq_ok hn, hm]; rfl⟩
    · exact .inr ⟨_, by rw [hn]; rfl⟩
  · exact .inr ⟨_, rfl⟩

/-- What is between braces is what may stand in bounds up to the closing one. -/
theorem Braces.inside_eq {text : Bytes} (h : Braces ⟨pos, 0x7b :: text⟩ inside d)
    (hinside : ∀ b ∈ inside, isPart b = true) : text.takeWhile (· != 0x7d) = inside := by
  obtain ⟨tail, heq, -⟩ := h
  obtain ⟨-, rfl⟩ := List.cons.inj heq
  have hbrace : ∀ b ∈ inside, (b != 0x7d) = true := by
    intro b hb
    rw [bne_iff_ne]
    rintro rfl
    exact absurd (hinside _ hb) (by decide)
  rw [List.takeWhile_append_of_pos hbrace]
  simp

theorem applies_of_mark {operand : Expr}
    (h : repetitionMark c = .ok (some (least, most), d)) : Applies operand c least most d := by
  refine ⟨h, fun levels => ?_, ?_⟩
  · rw [repeated, h]
    rfl
  · rw [repeated, h]
    rfl

/-- Bounds are applied where something is written between braces that is read as bounds. -/
theorem applies_iff {operand : Expr} :
    Applies operand ⟨pos, 0x7b :: text⟩ least most d ↔
      ∃ inside, Braces ⟨pos, 0x7b :: text⟩ inside d ∧ ReadAs inside least most := by
  constructor
  · rintro ⟨h, -, -⟩
    change bounds ⟨pos, 0x7b :: text⟩ = _ at h
    by_cases hclosed : ∃ inside tail,
        (∀ b ∈ inside, isPart b = true) ∧ text = inside ++ 0x7d :: tail
    · obtain ⟨inside, tail, hinside, rfl⟩ := hclosed
      rw [bounds_of_braces hinside] at h
      obtain ⟨pair, hpair, h⟩ := Except.exists_of_bind_eq_ok h
      cases h
      exact ⟨inside, ⟨tail, rfl, rfl⟩, readAs_of_ofBody hinside hpair⟩
    · rw [bounds_of_no_braces fun inside tail hinside heq =>
        hclosed ⟨inside, tail, hinside, heq⟩] at h
      cases h
  · rintro ⟨inside, ⟨tail, heq, rfl⟩, hread⟩
    obtain ⟨-, rfl⟩ := List.cons.inj heq
    apply applies_of_mark
    change bounds _ = _
    rw [bounds_of_braces hread.isPart, ofBody_of_readAs hread]
    rfl

/-- An opening brace behind an operand begins bounds, or is left alone, so that a group is read
there, or is a fault. -/
theorem applies_or_refused (operand : Expr) (pos : Nat) (text : Bytes) :
    (∃ least most d, Applies operand ⟨pos, 0x7b :: text⟩ least most d) ∨
      (∀ levels, repeated levels operand ⟨pos, 0x7b :: text⟩ =
        .ok (operand, ⟨pos, 0x7b :: text⟩)) ∨
      ∃ cause, ∀ levels, repeated levels operand ⟨pos, 0x7b :: text⟩ =
        Cursor.fail ⟨pos, 0x7b :: text⟩ cause := by
  by_cases hclosed : ∃ inside tail, (∀ b ∈ inside, isPart b = true) ∧ text = inside ++ 0x7d :: tail
  · obtain ⟨inside, tail, hinside, rfl⟩ := hclosed
    have hmark := @bounds_of_braces inside pos hinside tail
    rcases ofBody_cases ⟨pos, 0x7b :: (inside ++ 0x7d :: tail)⟩ (inside.filter (· != 0x20)) with
      ⟨⟨least, most⟩, hpair⟩ | ⟨cause, hcause⟩
    · rw [hpair] at hmark
      exact .inl ⟨least, most, _, applies_of_mark hmark⟩
    · rw [hcause] at hmark
      refine .inr (.inr ⟨cause, fun levels => ?_⟩)
      rw [repeated]
      change bounds _ >>= _ = _
      rw [hmark]
      rfl
  · refine .inr (.inl fun levels => ?_)
    rw [repeated]
    change bounds _ >>= _ = _
    rw [bounds_of_no_braces fun inside tail hinside heq => hclosed ⟨inside, tail, hinside, heq⟩]
    rfl

/-- Braces behind an operand are applied to it as repetition bounds where bounds are written between
them, with the numbers that are written, and where what is written there is read as bounds all the
same: a numeral with spaces between its digits, or a comma without a numeral. In all other cases the
brace is left alone, so that a group is read there, or is a fault. -/
theorem bounds_denote (operand : Expr) (pos : Nat) (text : Bytes) :
    (∀ least most d, Applies operand ⟨pos, 0x7b :: text⟩ least most d ↔
      ∃ inside, Braces ⟨pos, 0x7b :: text⟩ inside d ∧ ReadAs inside least most) ∧
    (∀ least most d,
      (∃ inside, Braces ⟨pos, 0x7b :: text⟩ inside d ∧ Written Padded inside least most) ↔
        Applies operand ⟨pos, 0x7b :: text⟩ least most d ∧
          ¬ Irregular (text.takeWhile (· != 0x7d))) ∧
    ((∃ least most d, Applies operand ⟨pos, 0x7b :: text⟩ least most d) ∨
      (∀ levels, repeated levels operand ⟨pos, 0x7b :: text⟩ =
        .ok (operand, ⟨pos, 0x7b :: text⟩)) ∨
      ∃ cause, ∀ levels, repeated levels operand ⟨pos, 0x7b :: text⟩ =
        Cursor.fail ⟨pos, 0x7b :: text⟩ cause) := by
  refine ⟨fun least most d => applies_iff, fun least most d => ?_,
    applies_or_refused operand pos text⟩
  rw [applies_iff]
  constructor
  · rintro ⟨inside, hbraces, hwritten⟩
    obtain ⟨hread, hregular⟩ := written_padded_iff.mp hwritten
    rw [hbraces.inside_eq hread.isPart]
    exact ⟨⟨inside, hbraces, hread⟩, hregular⟩
  · rintro ⟨⟨inside, hbraces, hread⟩, hregular⟩
    rw [hbraces.inside_eq hread.isPart] at hregular
    exact ⟨inside, hbraces, written_padded_iff.mpr ⟨hread, hregular⟩⟩

/-- A numeral with a space between its digits is read as one number, and a comma without a numeral
as bounds that any number of copies keeps, though neither is how bounds are written. -/
theorem not_bounds_denote_irregular :
    Expr.ofBytes (Bytes.ofString "\"a\"\x7b1 2\x7d") =
        .ok (.repetition (.literal [0x61]) 12 (some 12)) ∧
      (¬ ∃ inside least most d, Braces ⟨3, Bytes.ofString "\x7b1 2\x7d"⟩ inside d ∧
        Written Padded inside least most) ∧
      Expr.ofBytes (Bytes.ofString "\"a\"\x7b,\x7d") =
        .ok (.repetition (.literal [0x61]) 0 none) ∧
      ¬ ∃ inside least most d, Braces ⟨3, Bytes.ofString "\x7b,\x7d"⟩ inside d ∧
        Written Padded inside least most := by
  refine ⟨by cbv, ?_, by cbv, ?_⟩
  · rintro ⟨inside, least, most, d, hbraces, hwritten⟩
    obtain ⟨hread, hregular⟩ := written_padded_iff.mp hwritten
    have hinside : inside = [0x31, 0x20, 0x32] := (hbraces.inside_eq hread.isPart).symm
    subst hinside
    exact hregular (.inl ⟨0x31, [0x20], 0x32, by decide, by decide, by simp [Spaces], by simp,
      List.infix_rfl⟩)
  · rintro ⟨inside, least, most, d, hbraces, hwritten⟩
    obtain ⟨hread, hregular⟩ := written_padded_iff.mp hwritten
    have hinside : inside = [0x2c] := (hbraces.inside_eq hread.isPart).symm
    subst hinside
    exact hregular (.inr ⟨[], [], by simp [Spaces], by simp [Spaces], rfl⟩)

end Bounds

end PatternEngine
