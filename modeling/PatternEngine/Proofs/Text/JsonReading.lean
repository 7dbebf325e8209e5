import Mathlib.Tactic.SplitIfs
import PatternEngine.Text.Json

/-!
# Reading JSON

A reader of JSON texts. There may be blanks between the marks of a text, the characters of a
string stand for themselves or are escaped, and numbers are integers without leading zeros. Nothing
may follow the value but blanks. Fractions, exponents and escapes of surrogates are not read, so
what is read is a JSON text, but not all JSON texts are read.

The strings and the integers that values are written with are read back.
-/

namespace PatternEngine.Json

/-! ## The reader -/

/-- A blank between the marks of a text. -/
def isBlank (c : Char) : Bool := c = ' ' || c = '\t' || c = '\n' || c = '\r'

/-- What is left behind the blanks in front. -/
def skipBlanks (cs : List Char) : List Char := cs.dropWhile isBlank

/-- What the character behind a backslash stands for. -/
def unescape? : Char → Option Char
  | '"' => some '"'
  | '\\' => some '\\'
  | '/' => some '/'
  | 'b' => some (Char.ofNat 8)
  | 'f' => some (Char.ofNat 12)
  | 'n' => some '\n'
  | 'r' => some '\r'
  | 't' => some '\t'
  | _ => none

/-- The value of a digit to base sixteen. -/
def hexDigit? (c : Char) : Option Nat :=
  if '0' ≤ c ∧ c ≤ '9' then some (c.toNat - '0'.toNat)
  else if 'a' ≤ c ∧ c ≤ 'f' then some (c.toNat - 'a'.toNat + 10)
  else if 'A' ≤ c ∧ c ≤ 'F' then some (c.toNat - 'A'.toNat + 10)
  else none

/-- The value of digits to base sixteen. -/
def hexNumber? (digits : List Char) : Option Nat :=
  digits.foldlM (fun n c => (hexDigit? c).map (16 * n + ·)) 0

/-- One character of a string literal, and what follows it. -/
def character? : List Char → Option (Char × List Char)
  | '\\' :: 'u' :: a :: b :: c :: d :: cs => do
    let n ← hexNumber? [a, b, c, d]
    if n.isValidChar then some (Char.ofNat n, cs) else none
  | '\\' :: c :: cs => (unescape? c).map (·, cs)
  | c :: cs => if c = '"' ∨ c = '\\' ∨ c.toNat < 0x20 then none else some (c, cs)
  | [] => none

/-- The characters of a string literal up to its closing quote, and what follows that. -/
def literal? : (steps : Nat) → List Char → Option (List Char × List Char)
  | 0, _ => none
  | steps + 1, cs =>
    if cs.head? = some '"' then some ([], cs.tail)
    else do
      let (c, cs) ← character? cs
      let (text, cs) ← literal? steps cs
      some (c :: text, cs)

/-- The string in front, and what follows it. -/
def string? (cs : List Char) : Option (String × List Char) :=
  if cs.head? = some '"' then
    (literal? cs.length cs.tail).map fun (text, cs) => (String.ofList text, cs)
  else none

/-- What follows a word that stands in front. -/
def word? (word : String) (cs : List Char) : Option (List Char) :=
  if word.toList.isPrefixOf cs then some (cs.drop word.toList.length) else none

/-- The number of the digits in front, and what follows them. Leading zeros are refused: the digits
have to be those that the number is written with. -/
def natural? (cs : List Char) : Option (Nat × List Char) :=
  let digits := cs.takeWhile Char.isDigit
  let n := Nat.ofDigitChars 10 digits 0
  if Nat.toDigits 10 n = digits then some (n, cs.dropWhile Char.isDigit) else none

/-- The integer in front, and what follows it. -/
def integer? (cs : List Char) : Option (Int × List Char) :=
  if cs.head? = some '-' then (natural? cs.tail).map fun (n, cs) => (-(n : Int), cs)
  else (natural? cs).map fun (n, cs) => ((n : Int), cs)

/-- Things that are separated by commas, up to a closing bracket, and what follows that. -/
def listOf? {α : Type} (one : List Char → Option (α × List Char)) (close : Char) :
    (steps : Nat) → List Char → Option (List α × List Char)
  | 0, _ => none
  | steps + 1, cs => do
    let (first, cs) ← one cs
    match skipBlanks cs with
    | [] => none
    | c :: cs =>
      if c = ',' then (listOf? one close steps cs).map fun (others, cs) => (first :: others, cs)
      else if c = close then some ([first], cs)
      else none

/-- Things behind an opening bracket, if there are any. -/
def bracketed? {α : Type} (one : List Char → Option (α × List Char)) (close : Char)
    (cs : List Char) : Option (List α × List Char) :=
  if (skipBlanks cs).head? = some close then some ([], (skipBlanks cs).tail)
  else listOf? one close cs.length cs

/-- The member of an object in front, and what follows it. -/
def member? (value : List Char → Option (Json × List Char)) (cs : List Char) :
    Option ((String × Json) × List Char) := do
  let (key, cs) ← string? (skipBlanks cs)
  if (skipBlanks cs).head? = some ':' then
    (value (skipBlanks cs).tail).map fun (value, cs) => ((key, value), cs)
  else none

/-- The value in front, which has fewer than `levels` levels of brackets, and what follows it. -/
def value? : (levels : Nat) → List Char → Option (Json × List Char)
  | 0, _ => none
  | levels + 1, cs =>
    match skipBlanks cs with
    | [] => none
    | c :: cs =>
      if c = 'n' then (word? "ull" cs).map (.null, ·)
      else if c = 't' then (word? "rue" cs).map (.bool true, ·)
      else if c = 'f' then (word? "alse" cs).map (.bool false, ·)
      else if c = '"' then (string? (c :: cs)).map fun (s, cs) => (.str s, cs)
      else if c = '[' then
        (bracketed? (value? levels) ']' cs).map fun (items, cs) => (.arr items, cs)
      else if c = '\x7b' then
        (bracketed? (member? (value? levels)) '\x7d' cs).map fun (members, cs) =>
          (.obj members, cs)
      else (integer? (c :: cs)).map fun (n, cs) => (.int n, cs)

/-- The value that a text denotes, if it is one that is read. -/
def read? (text : String) : Option Json := do
  let (value, cs) ← value? (text.toList.length + 1) text.toList
  if skipBlanks cs = [] then some value else none

/-! ## Strings and numbers -/

variable {rest cs : List Char} {steps levels level : Nat}

theorem hexDigit?_digitChar : ∀ n < 16, hexDigit? (Nat.digitChar n) = some n := by decide

/-- The characters below the space are read back from their code points. -/
theorem character?_codePoint {c : Char} (h : c.toNat < 0x20) : character? ('\\' :: 'u' :: '0' ::
    '0' :: Nat.digitChar (c.toNat / 16) :: Nat.digitChar (c.toNat % 16) :: rest) =
      some (c, rest) := by
  have hhigh := hexDigit?_digitChar (c.toNat / 16) (by omega)
  have hlow := hexDigit?_digitChar (c.toNat % 16) (by omega)
  have hzero : hexDigit? '0' = some 0 := by decide
  have hnumber : hexNumber? ['0', '0', Nat.digitChar (c.toNat / 16), Nat.digitChar (c.toNat % 16)] =
      some c.toNat := by
    simp only [hexNumber?, List.foldlM_cons, List.foldlM_nil, hzero, hhigh, hlow, Option.map_some,
      Option.bind_eq_bind, Option.bind_some, pure]
    congr 1
    omega
  have hvalid : c.toNat.isValidChar := .inl (by omega)
  simp only [character?, hnumber, Option.bind_eq_bind, Option.bind_some, if_pos hvalid,
    Char.ofNat_toNat]

/-- A character of a literal is read back from its escape. -/
theorem character?_escape (c : Char) (rest : List Char) :
    character? (escape c ++ rest) = some (c, rest) := by
  unfold escape
  split_ifs with hquote hbackslash hplain
  · subst hquote; rfl
  · subst hbackslash; rfl
  · simp [character?, hquote, hbackslash, hplain]
  all_goals first
    | (subst_vars; rfl)
    | exact character?_codePoint (by omega)

theorem head?_escape (c : Char) (rest : List Char) :
    (escape c ++ rest).head? ≠ some '"' := by
  unfold escape
  split_ifs with hquote <;> simp [*]

/-- The characters of a literal are read back. -/
theorem literal?_escape (text : List Char) (h : (text.flatMap escape).length < steps) :
    literal? steps (text.flatMap escape ++ '"' :: rest) = some (text, rest) := by
  induction text generalizing steps with
  | nil =>
    obtain ⟨steps, rfl⟩ := Nat.exists_eq_succ_of_ne_zero (Nat.ne_of_gt h)
    rfl
  | cons c text ih =>
    obtain ⟨steps, rfl⟩ := Nat.exists_eq_succ_of_ne_zero (Nat.ne_of_gt (Nat.zero_lt_of_lt h))
    have hpos : 0 < (escape c).length := by
      unfold escape
      split_ifs <;> simp
    simp only [List.flatMap_cons, List.length_append, List.append_assoc] at h ⊢
    rw [literal?, if_neg (head?_escape c _), character?_escape]
    simp only [Option.bind_eq_bind, Option.bind_some]
    rw [ih (by omega)]
    rfl

/-- What follows does not go on with the digits of a number. -/
def EndsNumber (rest : List Char) : Prop := ∀ c ∈ rest.head?, c.isDigit = false

theorem natural?_toDigits (n : Nat) (h : EndsNumber rest) :
    natural? (Nat.toDigits 10 n ++ rest) = some (n, rest) := by
  have hdigits : ∀ c ∈ Nat.toDigits 10 n, c.isDigit = true := fun c =>
    Nat.isDigit_of_mem_toDigits (by decide) (by decide)
  have hrest : rest.takeWhile Char.isDigit = [] ∧ rest.dropWhile Char.isDigit = rest := by
    cases rest with
    | nil => exact ⟨rfl, rfl⟩
    | cons c rest =>
      have hc : c.isDigit = false := h c rfl
      simp [hc]
  have htake : (Nat.toDigits 10 n ++ rest).takeWhile Char.isDigit = Nat.toDigits 10 n := by
    rw [List.takeWhile_append_of_pos hdigits, hrest.1, List.append_nil]
  have hdrop : (Nat.toDigits 10 n ++ rest).dropWhile Char.isDigit = rest := by
    rw [List.dropWhile_append_of_pos hdigits, hrest.2]
  have hvalue : Nat.ofDigitChars 10 (Nat.toDigits 10 n) 0 = n :=
    Nat.ofDigitChars_toDigits (by decide) (by decide)
  simp only [natural?, htake, hdrop, hvalue, if_true]

/-- The digits of a number begin with a digit. -/
theorem exists_toDigits_eq (n : Nat) :
    ∃ c cs, Nat.toDigits 10 n = c :: cs ∧ c.isDigit = true := by
  obtain ⟨c, cs, hcs⟩ := List.exists_cons_of_ne_nil (Nat.toDigits_ne_nil (b := 10) (n := n))
  exact ⟨c, cs, hcs, Nat.isDigit_of_mem_toDigits (b := 10) (n := n) (by decide) (by decide)
    (hcs ▸ List.mem_cons_self)⟩

/-- An integer begins with a minus sign or a digit. -/
theorem exists_decimal_eq (n : Int) :
    ∃ c cs, decimal n = c :: cs ∧ (c = '-' ∨ c.isDigit = true) := by
  cases n with
  | ofNat n =>
    obtain ⟨c, cs, hcs, hc⟩ := exists_toDigits_eq n
    exact ⟨c, cs, hcs, .inr hc⟩
  | negSucc n => exact ⟨_, _, rfl, .inl rfl⟩

/-- An integer is read back. -/
theorem integer?_decimal (n : Int) (h : EndsNumber rest) :
    integer? (decimal n ++ rest) = some (n, rest) := by
  cases n with
  | ofNat n =>
    have hhead : (Nat.toDigits 10 n ++ rest).head? ≠ some '-' := by
      obtain ⟨c, cs, hcs, hc⟩ := exists_toDigits_eq n
      rw [hcs]
      rintro heq
      cases heq
      exact absurd hc (by decide)
    rw [decimal, integer?, if_neg hhead, natural?_toDigits n h]
    rfl
  | negSucc n =>
    rw [decimal, integer?, List.cons_append, List.head?_cons, if_pos rfl, List.tail_cons,
      natural?_toDigits (n + 1) h]
    rfl

/-- A string is read back. -/
theorem string?_quote (s : String) (rest : List Char) :
    string? (quote s ++ rest) = some (s, rest) := by
  have hlength : (s.toList.flatMap escape).length < (quote s ++ rest).length := by
    simp only [quote, List.cons_append, List.length_cons, List.length_append, List.length_nil]
    omega
  rw [string?, if_pos (by rw [quote]; rfl)]
  have htail : (quote s ++ rest).tail = s.toList.flatMap escape ++ '"' :: rest := by
    simp [quote]
  rw [htail, literal?_escape s.toList hlength]
  simp

/-- To show something of all values it is enough to show it of an array from its items and of an
object from the values of its members. -/
@[elab_as_elim]
theorem inductionOn {motive : Json → Prop} (value : Json) (null : motive .null)
    (bool : ∀ b, motive (.bool b)) (int : ∀ n, motive (.int n)) (str : ∀ s, motive (.str s))
    (arr : ∀ items, (∀ item ∈ items, motive item) → motive (.arr items))
    (obj : ∀ members, (∀ member ∈ members, motive member.2) → motive (.obj members)) :
    motive value :=
  match value with
  | .null => null
  | .bool b => bool b
  | .int n => int n
  | .str s => str s
  | .arr items => arr items fun item _ => inductionOn item null bool int str arr obj
  | .obj members => obj members fun member _ => inductionOn member.2 null bool int str arr obj
termination_by sizeOf value
decreasing_by
  · have := List.sizeOf_lt_of_mem ‹_›
    simp only [Json.arr.sizeOf_spec]
    omega
  · have := List.sizeOf_lt_of_mem ‹_›
    have hpair : sizeOf member = 1 + sizeOf member.1 + sizeOf member.2 := rfl
    simp only [Json.obj.sizeOf_spec]
    omega

end PatternEngine.Json
