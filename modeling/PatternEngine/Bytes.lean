/-!
# Bytes

Texts that are matched, loaded or stored are finite lists of bytes. This module
holds the ASCII classes of a byte, the slice of a text between two offsets, texts
that know their length, and the cursor: an offset together with the bytes that still
lie ahead of it.
-/

namespace PatternEngine

/-- A byte text of any content. -/
abbrev Bytes := List UInt8

namespace Ascii

/-- The decimal digits. -/
def isDigit (b : UInt8) : Bool := 0x30 ≤ b && b ≤ 0x39

/-- The capital letters. -/
def isUpper (b : UInt8) : Bool := 0x41 ≤ b && b ≤ 0x5a

/-- The small letters. -/
def isLower (b : UInt8) : Bool := 0x61 ≤ b && b ≤ 0x7a

/-- The letters of both cases. -/
def isAlpha (b : UInt8) : Bool := isUpper b || isLower b

/-- The letters and the decimal digits. -/
def isAlnum (b : UInt8) : Bool := isAlpha b || isDigit b

/-- Space, tab, line feed, form feed and carriage return; the vertical tab is not blank. -/
def isBlank (b : UInt8) : Bool :=
  b == 0x20 || b == 0x09 || b == 0x0a || b == 0x0c || b == 0x0d

/-- The characters that leave a mark on paper. -/
def isGraphic (b : UInt8) : Bool := 0x21 ≤ b && b ≤ 0x7e

/-- The control characters, the last of which is the delete character. -/
def isControl (b : UInt8) : Bool := b < 0x20 || b == 0x7f

/-- The value of a hexadecimal digit of either case. -/
def hexValue? (b : UInt8) : Option UInt8 :=
  if isDigit b then some (b - 0x30)
  else if 0x61 ≤ b && b ≤ 0x66 then some (b - 0x57)
  else if 0x41 ≤ b && b ≤ 0x46 then some (b - 0x37)
  else none

/-- The character whose code point is the byte. -/
def toChar (b : UInt8) : Char := Char.ofNat b.toNat

end Ascii

namespace Bytes

/-- The UTF-8 encoding of a string. -/
def ofString (s : String) : Bytes := s.toUTF8.data.toList

/-- The string of the characters whose code points are the bytes; for ASCII texts it is
the text itself. -/
def toAscii (bytes : Bytes) : String := String.ofList (bytes.map Ascii.toChar)

/-- The bytes from offset `start` up to but not including offset `stop`. -/
def slice (bytes : Bytes) (start stop : Nat) : Bytes :=
  (bytes.drop start).take (stop - start)

/-- The pieces between the occurrences of a separating byte, empty ones included. -/
def splitOn (separator : UInt8) : Bytes → List Bytes
  | [] => [[]]
  | b :: rest =>
    if b == separator then [] :: splitOn separator rest
    else match splitOn separator rest with
      | [] => [[b]]
      | piece :: pieces => (b :: piece) :: pieces

/-- The text without blanks at its start. -/
def trimStart (bytes : Bytes) : Bytes := bytes.dropWhile Ascii.isBlank

/-- The text without blanks at its end. -/
def trimEnd (bytes : Bytes) : Bytes := (bytes.reverse.dropWhile Ascii.isBlank).reverse

/-- The text without blanks at either end. -/
def trim (bytes : Bytes) : Bytes := trimEnd (trimStart bytes)

end Bytes

/-- A byte text with its length at hand. -/
structure SizedBytes where
  /-- The text. -/
  bytes : Bytes
  /-- Its length. -/
  size : Nat
  /-- The length is that of the text. -/
  size_eq : size = bytes.length
  deriving DecidableEq, Repr

namespace SizedBytes

/-- A text with its length. -/
def ofBytes (bytes : Bytes) : SizedBytes := ⟨bytes, bytes.length, rfl⟩

/-- The text without its first `n` bytes. -/
def drop (n : Nat) (text : SizedBytes) : SizedBytes where
  bytes := text.bytes.drop n
  size := text.size - n
  size_eq := by simp [text.size_eq]

/-- The second text starts with the first. A text that is too short for that is not looked
at. -/
def isPrefixOf (start text : SizedBytes) : Bool :=
  decide (start.size ≤ text.size) && start.bytes.isPrefixOf text.bytes

/-- Looking at the lengths first changes nothing. -/
theorem isPrefixOf_eq (start text : SizedBytes) :
    start.isPrefixOf text = start.bytes.isPrefixOf text.bytes := by
  unfold isPrefixOf
  by_cases h : start.bytes.isPrefixOf text.bytes = true
  · have hle := (List.isPrefixOf_iff_prefix.1 h).length_le
    simp [h, start.size_eq, text.size_eq, hle]
  · simp [h]

end SizedBytes

/-- An offset in a text, with the bytes from there to its end. -/
structure Cursor where
  /-- Bytes before the cursor. -/
  pos : Nat
  /-- Bytes at and after the cursor. -/
  rest : Bytes
  deriving DecidableEq, Repr

namespace Cursor

/-- The cursor at the start of a text. -/
def start (bytes : Bytes) : Cursor := ⟨0, bytes⟩

/-- The cursor `n` bytes further on. -/
def advance (c : Cursor) (n : Nat) : Cursor := ⟨c.pos + n, c.rest.drop n⟩

/-- The byte under the cursor, unless the text ends there. -/
def peek? (c : Cursor) : Option UInt8 := c.rest.head?

/-- No byte is left. -/
def atEnd (c : Cursor) : Bool := c.rest.isEmpty

end Cursor

end PatternEngine
