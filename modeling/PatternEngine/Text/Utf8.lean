import PatternEngine.Bytes

/-!
# UTF-8

A text is cut into well-formed characters and ill-formed pieces. An ill-formed piece
is the longest beginning of a character that the bytes allow, or a single byte that
begins none, so that strict decoding accepts exactly the texts without such pieces
and lossy decoding puts one replacement character for each of them.
-/

namespace PatternEngine.Utf8

/-- A character that has begun and still needs continuation bytes. -/
structure Pending where
  /-- Continuation bytes still needed, counting from zero after the next one. -/
  more : Nat
  /-- Least value that the next byte may have. -/
  least : UInt8
  /-- Greatest value that the next byte may have. -/
  greatest : UInt8
  /-- The bits of the code point that have been read. -/
  value : Nat
  deriving DecidableEq, Repr

/-- What a byte can begin. -/
inductive Lead where
  /-- A character of one byte. -/
  | complete (c : Char)
  /-- A character of several bytes. -/
  | pending (p : Pending)
  /-- No character. -/
  | invalid
  deriving DecidableEq, Repr

/-- Overlong forms, surrogates and code points above U+10FFFF are shut out by the range
of the second byte. -/
def lead (b : UInt8) : Lead :=
  if b < 0x80 then .complete (Char.ofNat b.toNat)
  else if 0xc2 ≤ b && b ≤ 0xdf then .pending ⟨0, 0x80, 0xbf, b.toNat - 0xc0⟩
  else if b == 0xe0 then .pending ⟨1, 0xa0, 0xbf, 0⟩
  else if b == 0xed then .pending ⟨1, 0x80, 0x9f, 0xd⟩
  else if 0xe1 ≤ b && b ≤ 0xef then .pending ⟨1, 0x80, 0xbf, b.toNat - 0xe0⟩
  else if b == 0xf0 then .pending ⟨2, 0x90, 0xbf, 0⟩
  else if b == 0xf4 then .pending ⟨2, 0x80, 0x8f, 4⟩
  else if 0xf1 ≤ b && b ≤ 0xf3 then .pending ⟨2, 0x80, 0xbf, b.toNat - 0xf0⟩
  else .invalid

/-- Read a byte that the pending character allows. -/
def Pending.accept (p : Pending) (b : UInt8) : Lead :=
  let value := p.value * 64 + (b.toNat - 0x80)
  match p.more with
  | 0 => .complete (Char.ofNat value)
  | more + 1 => .pending ⟨more, 0x80, 0xbf, value⟩

/-- The byte is one that the pending character allows next. -/
def Pending.allows (p : Pending) (b : UInt8) : Bool := p.least ≤ b && b ≤ p.greatest

/-- The characters of a text in order, with `none` for each ill-formed piece. The first
argument is the character that the preceding bytes have begun. -/
def scanFrom : Option Pending → Bytes → List (Option Char)
  | none, [] => []
  | some _, [] => [none]
  | none, b :: rest =>
    match lead b with
    | .complete c => some c :: scanFrom none rest
    | .pending p => scanFrom (some p) rest
    | .invalid => none :: scanFrom none rest
  | some p, b :: rest =>
    if p.allows b then
      match p.accept b with
      | .complete c => some c :: scanFrom none rest
      | .pending q => scanFrom (some q) rest
      | .invalid => none :: scanFrom none rest
    else
      none :: match lead b with
        | .complete c => some c :: scanFrom none rest
        | .pending q => scanFrom (some q) rest
        | .invalid => none :: scanFrom none rest

/-- The characters of a text in order, with `none` for each ill-formed piece. -/
def scan (bytes : Bytes) : List (Option Char) := scanFrom none bytes

/-- What stands for an ill-formed piece. -/
def replacement : Char := Char.ofNat 0xfffd

/-- The characters of a text, each ill-formed piece replaced by U+FFFD. -/
def decodeLossyChars (bytes : Bytes) : List Char := (scan bytes).map (·.getD replacement)

/-- The string of a text, each ill-formed piece replaced by U+FFFD. -/
def decodeLossy (bytes : Bytes) : String := String.ofList (decodeLossyChars bytes)

/-- All of the characters when none of them is missing. -/
def allChars : List (Option Char) → Option (List Char)
  | [] => some []
  | none :: _ => none
  | some c :: rest => (allChars rest).map (c :: ·)

/-- The string of a well-formed text. -/
def decode? (bytes : Bytes) : Option String := (allChars (scan bytes)).map String.ofList

/-- The first character of a text, or the null character when there is none. No character
is longer than four bytes. -/
def firstChar (bytes : Bytes) : Char := (decodeLossyChars (bytes.take 4)).headD (Char.ofNat 0)

/-- The byte may stand inside a character of several bytes. -/
def isContinuation (b : UInt8) : Bool := b &&& 0xc0 == 0x80

/-- The number of bytes that the lead byte announces. -/
def announcedWidth (b : UInt8) : Nat :=
  if 0xc2 ≤ b && b ≤ 0xdf then 2
  else if 0xe0 ≤ b && b ≤ 0xef then 3
  else if 0xf0 ≤ b && b ≤ 0xf4 then 4
  else 1

/-- The width of one character step: the announced width when that many bytes are there
and all but the first are continuation bytes, and otherwise one byte. Only the lead byte
and the continuation bits are looked at. -/
def stepWidth (b : UInt8) (rest : Bytes) : Nat :=
  let width := announcedWidth b
  let tail := rest.take (width - 1)
  if tail.length + 1 == width && tail.all isContinuation then width else 1

end PatternEngine.Utf8
