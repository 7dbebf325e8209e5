import PatternEngine.Status
import PatternEngine.Text.Utf8

/-!
# Texts at the boundary

Callers in other languages pass a text as a place in memory and a length of 32 bits. A text
without a place carries a number instead of a length: zero for no text at all, or the code of
what went wrong. Names of files, encoders and styles are passed without a length and end at
their first null byte.

Each value that a call gives back is written to a place that the caller names. A caller who
does not want a value names no place, and what a call does not write keeps its old value.
-/

namespace PatternEngine.Boundary

/-- The place and the length of a text. -/
structure TextHeader where
  /-- The text has no place. -/
  isNull : Bool
  /-- The length, or a code. -/
  length : UInt32
  deriving DecidableEq, Repr

namespace TextHeader

/-- The number of a text without a place. -/
def code (header : TextHeader) : Int32 := header.length.toInt32

/-- No place, but a code. -/
def ofCode (code : Int) : TextHeader := ⟨true, (Int32.ofInt code).toUInt32⟩

/-- A place with so many bytes. What does not fit in 32 bits has no place. -/
def ofLength (length : Nat) : TextHeader :=
  if length < UInt32.size then ⟨false, UInt32.ofNat length⟩ else ofCode Status.outOfMemory

end TextHeader

/-- A text that crosses the boundary. -/
inductive ForeignText where
  /-- Bytes at some place. -/
  | bytes (content : Bytes)
  /-- No place, but a code. -/
  | status (code : Int32)
  deriving DecidableEq, Repr

namespace ForeignText

/-- No text. -/
def null : ForeignText := .status 0

/-- A code in place of a text. -/
def ofCode (code : Int) : ForeignText := .status (Int32.ofInt code)

/-- A text with a content, unless its length does not fit. -/
def ofBytes (content : Bytes) : ForeignText :=
  if content.length < UInt32.size then .bytes content else ofCode Status.outOfMemory

/-- The text of a string. -/
def ofString (s : String) : ForeignText := ofBytes (Bytes.ofString s)

/-- The text of a string, or no text. -/
def ofString? : Option String → ForeignText
  | some s => ofString s
  | none => null

/-- The text of bytes, or no text. -/
def ofBytes? : Option Bytes → ForeignText
  | some content => ofBytes content
  | none => null

/-- The place and the length of a text. -/
def header : ForeignText → TextHeader
  | .bytes content => .ofLength content.length
  | .status code => ⟨true, code.toUInt32⟩

/-- The bytes of a text. -/
def bytes? : ForeignText → Option Bytes
  | .bytes content => some content
  | .status _ => none

/-- The string of a text, each ill-formed piece replaced. -/
def string? (text : ForeignText) : Option String := text.bytes?.map Utf8.decodeLossy

end ForeignText

/-- A text that is passed, unless the caller names no place to find it. -/
abbrev TextArgument := Option ForeignText

namespace TextArgument

/-- The bytes that are passed. -/
def bytes? (argument : TextArgument) : Option Bytes := argument.bind (·.bytes?)

/-- The string that is passed. -/
def string? (argument : TextArgument) : Option String := argument.bind (·.string?)

end TextArgument

/-- A name that is passed without its length, unless the caller names no place to find it. -/
abbrev NameArgument := Option Bytes

/-- The string of a name: the bytes before the first null byte, each ill-formed piece
replaced. -/
def NameArgument.string? (argument : NameArgument) : Option String :=
  argument.map fun content => Utf8.decodeLossy (content.takeWhile (· != 0))

/-- A place for a value that a call gives back, with the value it holds, unless the caller
does not want it. -/
abbrev Cell (α : Type) := Option α

/-- Write a value to its place. -/
def Cell.put {α : Type} (cell : Cell α) (value : α) : Cell α := cell.map fun _ => value

/-- What a place holds after it was written does not depend on what it held before. -/
@[simp] theorem Cell.put_some {α : Type} (old value : α) :
    Cell.put (some old) value = some value := rfl

/-- Where the caller names no place nothing is written. -/
@[simp] theorem Cell.put_none {α : Type} (value : α) : Cell.put none value = none := rfl

end PatternEngine.Boundary
