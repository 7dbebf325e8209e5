import PatternEngine.Proofs.Text.JsonLayouts

/-!
# The grammar of JSON

JSON texts in full, with fractions, exponents and all escapes. Each part of the grammar relates the
characters that are ahead of it to those that are left behind it. What the reader of values reads is
of the grammar, and so are the texts that values are written as.
-/

namespace PatternEngine.Json

/-! ## The grammar -/

/-- Any number of blanks. -/
inductive Blanks : List Char → List Char → Prop
  | none {cs : List Char} : Blanks cs cs
  | some {c : Char} {cs rest : List Char} (hc : isBlank c = true) (h : Blanks cs rest) :
    Blanks (c :: cs) rest

/-- The characters of a string up to and including its closing quote. -/
inductive Characters : List Char → List Char → Prop
  | closed {rest : List Char} : Characters ('"' :: rest) rest
  | plain {c : Char} {cs rest : List Char} (hc : 0x20 ≤ c.toNat) (hquote : c ≠ '"')
    (hbackslash : c ≠ '\\') (h : Characters cs rest) : Characters (c :: cs) rest
  | escaped {c : Char} {cs rest : List Char}
    (hc : c ∈ ['"', '\\', '/', 'b', 'f', 'n', 'r', 't']) (h : Characters cs rest) :
    Characters ('\\' :: c :: cs) rest
  | codePoint {digits cs rest : List Char} (hlength : digits.length = 4)
    (hdigits : ∀ c ∈ digits, (hexDigit? c).isSome = true) (h : Characters cs rest) :
    Characters ('\\' :: 'u' :: (digits ++ cs)) rest

/-- One digit or more. -/
inductive Digits : List Char → List Char → Prop
  | last {c : Char} {rest : List Char} (hc : c.isDigit = true) : Digits (c :: rest) rest
  | next {c : Char} {cs rest : List Char} (hc : c.isDigit = true) (h : Digits cs rest) :
    Digits (c :: cs) rest

/-- The digits of a number in front of its point, the first of which is a zero only if it is the
only one. -/
inductive Whole : List Char → List Char → Prop
  | zero {rest : List Char} : Whole ('0' :: rest) rest
  | digits {c : Char} {cs rest : List Char} (hc : c ≠ '0') (h : Digits (c :: cs) rest) :
    Whole (c :: cs) rest

/-- The point of a number and the digits behind it, if there are any. -/
inductive Fraction : List Char → List Char → Prop
  | none {cs : List Char} : Fraction cs cs
  | some {cs rest : List Char} (h : Digits cs rest) : Fraction ('.' :: cs) rest

/-- The exponent of a number, if there is one. -/
inductive Exponent : List Char → List Char → Prop
  | none {cs : List Char} : Exponent cs cs
  | unsigned {c : Char} {cs rest : List Char} (hc : c ∈ ['e', 'E']) (h : Digits cs rest) :
    Exponent (c :: cs) rest
  | signed {c sign : Char} {cs rest : List Char} (hc : c ∈ ['e', 'E']) (hsign : sign ∈ ['+', '-'])
    (h : Digits cs rest) : Exponent (c :: sign :: cs) rest

/-- A number without its sign. -/
inductive Magnitude : List Char → List Char → Prop
  | intro {cs cs' cs'' rest : List Char} (hwhole : Whole cs cs') (hfraction : Fraction cs' cs'')
    (hexponent : Exponent cs'' rest) : Magnitude cs rest

/-- Parts separated by commas, with blanks around each of them, up to and including a closing
bracket. -/
inductive Separated (part : List Char → List Char → Prop) (close : Char) :
    List Char → List Char → Prop
  | last {cs cs' cs'' rest : List Char} (hbefore : Blanks cs cs') (h : part cs' cs'')
    (hbehind : Blanks cs'' (close :: rest)) : Separated part close cs rest
  | next {cs cs' cs'' cs''' rest : List Char} (hbefore : Blanks cs cs') (h : part cs' cs'')
    (hbehind : Blanks cs'' (',' :: cs''')) (hrest : Separated part close cs''' rest) :
    Separated part close cs rest

/-- A member of an object: a string, a colon and a value. -/
inductive Member (value : List Char → List Char → Prop) : List Char → List Char → Prop
  | intro {cs cs' cs'' cs''' rest : List Char} (hkey : Characters cs cs')
    (hcolon : Blanks cs' (':' :: cs'')) (hbefore : Blanks cs'' cs''') (h : value cs''' rest) :
    Member value ('"' :: cs) rest

/-- A value. -/
inductive Value : List Char → List Char → Prop
  | null {rest : List Char} : Value ('n' :: 'u' :: 'l' :: 'l' :: rest) rest
  | true {rest : List Char} : Value ('t' :: 'r' :: 'u' :: 'e' :: rest) rest
  | false {rest : List Char} : Value ('f' :: 'a' :: 'l' :: 's' :: 'e' :: rest) rest
  | string {cs rest : List Char} (h : Characters cs rest) : Value ('"' :: cs) rest
  | number {cs rest : List Char} (h : Magnitude cs rest) : Value cs rest
  | negative {cs rest : List Char} (h : Magnitude cs rest) : Value ('-' :: cs) rest
  | emptyArray {cs rest : List Char} (h : Blanks cs (']' :: rest)) : Value ('[' :: cs) rest
  | array {cs rest : List Char} (h : Separated Value ']' cs rest) : Value ('[' :: cs) rest
  | emptyObject {cs rest : List Char} (h : Blanks cs ('\x7d' :: rest)) : Value ('\x7b' :: cs) rest
  | object {cs rest : List Char} (h : Separated (Member Value) '\x7d' cs rest) :
    Value ('\x7b' :: cs) rest

/-- A value with nothing but blanks around it. -/
def IsText (text : String) : Prop :=
  ∃ cs rest, Blanks text.toList cs ∧ Value cs rest ∧ Blanks rest []

/-! ## What is read -/

variable {cs rest : List Char} {steps levels : Nat}

theorem blanks_skipBlanks (cs : List Char) : Blanks cs (skipBlanks cs) := by
  induction cs with
  | nil => exact .none
  | cons c cs ih =>
    rw [skipBlanks, List.dropWhile_cons]
    split
    · rename_i hc
      exact .some hc ih
    · exact .none

theorem isSome_of_hexNumber? {digits : List Char} {n : Nat} (h : hexNumber? digits = some n) :
    ∀ c ∈ digits, (hexDigit? c).isSome = true := by
  unfold hexNumber? at h
  generalize 0 = value at h
  induction digits generalizing value with
  | nil => nofun
  | cons c digits ih =>
    rw [List.foldlM_cons] at h
    obtain ⟨value', hfirst, hothers⟩ := Option.bind_eq_some_iff.mp h
    obtain ⟨digit, hdigit, -⟩ := Option.map_eq_some_iff.mp hfirst
    exact List.forall_mem_cons.mpr ⟨by rw [hdigit]; rfl, ih value' hothers⟩

theorem mem_of_unescape? {c c' : Char} (h : unescape? c = some c') :
    c ∈ ['"', '\\', '/', 'b', 'f', 'n', 'r', 't'] := by
  unfold unescape? at h
  split at h
  all_goals first
    | exact by decide
    | cases h

/-- One character of a string that is read, in front of others. -/
theorem characters_of_character? {c : Char} {behind : List Char}
    (h : character? cs = some (c, behind)) (hrest : Characters behind rest) :
    Characters cs rest := by
  unfold character? at h
  split at h
  · obtain ⟨n, hn, h⟩ := Option.bind_eq_some_iff.mp h
    split at h
    · cases h
      exact .codePoint rfl (isSome_of_hexNumber? hn) hrest
    · cases h
  · obtain ⟨c', hc', heq⟩ := Option.map_eq_some_iff.mp h
    cases heq
    exact .escaped (mem_of_unescape? hc') hrest
  · split at h
    · cases h
    · rename_i hplain
      cases h
      simp only [not_or, Nat.not_lt] at hplain
      exact .plain hplain.2.2 hplain.1 hplain.2.1 hrest
  · cases h

/-- The characters of a string that is read. -/
theorem characters_of_literal? {text : List Char} (h : literal? steps cs = some (text, rest)) :
    Characters cs rest := by
  induction steps generalizing cs text with
  | zero => cases h
  | succ steps ih =>
    rw [literal?] at h
    split at h
    · rename_i hquote
      obtain ⟨cs', rfl⟩ := List.head?_eq_some_iff.mp hquote
      cases h
      exact .closed
    · obtain ⟨⟨c, behind⟩, hc, h⟩ := Option.bind_eq_some_iff.mp h
      obtain ⟨⟨others, behind'⟩, hothers, h⟩ := Option.bind_eq_some_iff.mp h
      cases h
      exact characters_of_character? hc (ih hothers)

/-- A string that is read. -/
theorem exists_of_string? {s : String} (h : string? cs = some (s, rest)) :
    ∃ cs', cs = '"' :: cs' ∧ Characters cs' rest := by
  rw [string?] at h
  split at h
  · rename_i hquote
    obtain ⟨cs', rfl⟩ := List.head?_eq_some_iff.mp hquote
    obtain ⟨⟨text, behind⟩, htext, heq⟩ := Option.map_eq_some_iff.mp h
    cases heq
    exact ⟨cs', rfl, characters_of_literal? htext⟩
  · cases h

/-- A value that is a word is read from the word. -/
theorem eq_of_word? {word : String} {value value' : Json}
    (h : (word? word cs).map (value, ·) = some (value', rest)) : cs = word.toList ++ rest := by
  obtain ⟨rest', hword, heq⟩ := Option.map_eq_some_iff.mp h
  cases heq
  rw [word?] at hword
  split at hword
  · rename_i hprefix
    obtain ⟨behind, rfl⟩ := List.isPrefixOf_iff_prefix.mp hprefix
    cases hword
    rw [List.drop_left]
  · cases hword

/-- Digits in front of what is left are a run of digits. -/
theorem digits_append {c : Char} {digits : List Char} (h : ∀ c' ∈ c :: digits, c'.isDigit = true) :
    Digits (c :: (digits ++ rest)) rest := by
  induction digits generalizing c with
  | nil => exact .last (h c List.mem_cons_self)
  | cons c' digits ih =>
    exact .next (h c List.mem_cons_self) (ih fun d hd => h d (List.mem_cons_of_mem _ hd))

/-- A number other than zero is not written with a leading zero. -/
theorem head?_toDigits_ne_zero {n : Nat} (hn : 0 < n) :
    (Nat.toDigits 10 n).head? ≠ some '0' := by
  induction n using Nat.strongRecOn with
  | ind n ih =>
    by_cases hlt : n < 10
    · have hdigit : ∀ n < 10, 0 < n → n.digitChar ≠ '0' := by decide
      rw [Nat.toDigits_of_lt_base hlt]
      simpa using hdigit n hlt hn
    · rw [Nat.toDigits_of_base_le (by decide) (Nat.not_lt.mp hlt),
        List.head?_append_of_ne_nil _ Nat.toDigits_ne_nil]
      exact ih (n / 10) (by omega) (by omega)

theorem whole_toDigits (n : Nat) (rest : List Char) : Whole (Nat.toDigits 10 n ++ rest) rest := by
  rcases Nat.eq_zero_or_pos n with rfl | hn
  · exact .zero
  · have hdigits : ∀ c ∈ Nat.toDigits 10 n, c.isDigit = true := fun c =>
      Nat.isDigit_of_mem_toDigits (by decide) (by decide)
    have hhead := head?_toDigits_ne_zero hn
    obtain ⟨c, cs, hcs, -⟩ := exists_toDigits_eq n
    rw [hcs] at hdigits hhead ⊢
    exact .digits (fun heq => hhead (congrArg some heq)) (digits_append hdigits)

theorem magnitude_of_natural? {n : Nat} (h : natural? cs = some (n, rest)) :
    Magnitude cs rest := by
  unfold natural? at h
  dsimp only at h
  split at h
  · rename_i hdigits
    cases h
    have hwhole := whole_toDigits (Nat.ofDigitChars 10 (cs.takeWhile Char.isDigit) 0)
      (cs.dropWhile Char.isDigit)
    rw [hdigits, List.takeWhile_append_dropWhile] at hwhole
    exact .intro hwhole .none .none
  · cases h

theorem value_of_integer? {n : Int} (h : integer? cs = some (n, rest)) : Value cs rest := by
  rw [integer?] at h
  split at h
  · rename_i hminus
    obtain ⟨cs', rfl⟩ := List.head?_eq_some_iff.mp hminus
    obtain ⟨⟨n, behind⟩, hn, heq⟩ := Option.map_eq_some_iff.mp h
    cases heq
    exact .negative (magnitude_of_natural? hn)
  · obtain ⟨⟨n, behind⟩, hn, heq⟩ := Option.map_eq_some_iff.mp h
    cases heq
    exact .number (magnitude_of_natural? hn)

/-! ## Brackets -/

/-- Each part that is read is of the grammar, with blanks in front of it. -/
def ReadsParts {α : Type} (one : List Char → Option (α × List Char))
    (part : List Char → List Char → Prop) : Prop :=
  ∀ ⦃cs : List Char⦄ ⦃a : α⦄ ⦃rest : List Char⦄, one cs = some (a, rest) →
    ∃ cs', Blanks cs cs' ∧ part cs' rest

section Brackets

variable {α : Type} {one : List Char → Option (α × List Char)} {close : Char}
  {part : List Char → List Char → Prop} {as : List α}

theorem separated_of_listOf? (hone : ReadsParts one part)
    (h : listOf? one close steps cs = some (as, rest)) : Separated part close cs rest := by
  induction steps generalizing cs as with
  | zero => cases h
  | succ steps ih =>
    rw [listOf?] at h
    obtain ⟨⟨first, behind⟩, hfirst, h⟩ := Option.bind_eq_some_iff.mp h
    obtain ⟨cs', hblanks, hpart⟩ := hone hfirst
    have hbehind := blanks_skipBlanks behind
    dsimp only at h
    split at h
    · cases h
    · rename_i c behind' hskip
      rw [hskip] at hbehind
      split at h
      · rename_i hcomma
        obtain ⟨⟨others, rest'⟩, hothers, heq⟩ := Option.map_eq_some_iff.mp h
        cases heq
        exact .next hblanks hpart (hcomma ▸ hbehind) (ih hothers)
      · split at h
        · rename_i hclose
          cases h
          exact .last hblanks hpart (hclose ▸ hbehind)
        · cases h

theorem bracketed?_cases (hone : ReadsParts one part)
    (h : bracketed? one close cs = some (as, rest)) :
    Blanks cs (close :: rest) ∨ Separated part close cs rest := by
  rw [bracketed?] at h
  split at h
  · rename_i hclose
    obtain ⟨cs', hskip⟩ := List.head?_eq_some_iff.mp hclose
    have hblanks := blanks_skipBlanks cs
    rw [hskip] at h hblanks
    cases h
    exact .inl hblanks
  · exact .inr (separated_of_listOf? hone h)

end Brackets

theorem readsParts_member? {value : List Char → Option (Json × List Char)}
    {part : List Char → List Char → Prop} (hvalue : ReadsParts value part) :
    ReadsParts (member? value) (Member part) := by
  intro cs entry rest h
  obtain ⟨⟨key, behind⟩, hkey, h⟩ := Option.bind_eq_some_iff.mp h
  obtain ⟨cs', hcs, hchars⟩ := exists_of_string? hkey
  have hblanks := blanks_skipBlanks cs
  rw [hcs] at hblanks
  dsimp only at h
  split at h
  · rename_i hcolon
    obtain ⟨behind', hskip⟩ := List.head?_eq_some_iff.mp hcolon
    have hbehind := blanks_skipBlanks behind
    rw [hskip] at h hbehind
    obtain ⟨⟨entry', rest'⟩, hentry, heq⟩ := Option.map_eq_some_iff.mp h
    cases heq
    obtain ⟨cs'', hgap, hpart⟩ := hvalue hentry
    exact ⟨_, hblanks, .intro hchars hbehind hgap hpart⟩
  · cases h

/-- A value that is read is of the grammar, with blanks in front of it. -/
theorem readsParts_value? (levels : Nat) : ReadsParts (value? levels) Value := by
  induction levels with
  | zero => nofun
  | succ levels ih =>
    intro cs value rest h
    refine ⟨skipBlanks cs, blanks_skipBlanks cs, ?_⟩
    rw [value?] at h
    split at h
    · cases h
    · rename_i c behind hskip
      rw [hskip]
      split at h
      · rename_i hnull
        rw [hnull, eq_of_word? h]
        exact .null
      split at h
      · rename_i htrue
        rw [htrue, eq_of_word? h]
        exact .true
      split at h
      · rename_i hfalse
        rw [hfalse, eq_of_word? h]
        exact .false
      split at h
      · rename_i hquote
        obtain ⟨⟨s, rest'⟩, hstring, heq⟩ := Option.map_eq_some_iff.mp h
        cases heq
        obtain ⟨cs', hcs, hchars⟩ := exists_of_string? hstring
        rw [hcs]
        exact .string hchars
      split at h
      · rename_i hbracket
        obtain ⟨⟨items, rest'⟩, hitems, heq⟩ := Option.map_eq_some_iff.mp h
        cases heq
        rw [hbracket]
        exact (bracketed?_cases ih hitems).elim .emptyArray .array
      split at h
      · rename_i hbrace
        obtain ⟨⟨members, rest'⟩, hmembers, heq⟩ := Option.map_eq_some_iff.mp h
        cases heq
        rw [hbrace]
        exact (bracketed?_cases (readsParts_member? ih) hmembers).elim .emptyObject .object
      · obtain ⟨⟨n, rest'⟩, hn, heq⟩ := Option.map_eq_some_iff.mp h
        cases heq
        exact value_of_integer? hn

/-- What is read is a text of the grammar. -/
theorem isText_of_read? {text : String} {value : Json} (h : read? text = some value) :
    IsText text := by
  obtain ⟨⟨value', behind⟩, hvalue, h⟩ := Option.bind_eq_some_iff.mp h
  obtain ⟨cs, hblanks, hread⟩ := readsParts_value? _ hvalue
  dsimp only at h
  split at h
  · rename_i hskip
    have hbehind := blanks_skipBlanks behind
    rw [hskip] at hbehind
    exact ⟨cs, behind, hblanks, hread, hbehind⟩
  · cases h

/-- The texts that values are written as are of the grammar. -/
theorem isText_compact (value : Json) : IsText value.compact :=
  isText_of_read? (read?_compact value)

theorem isText_pretty (value : Json) : IsText value.pretty := isText_of_read? (read?_pretty value)

end PatternEngine.Json
