import PatternEngine.Violation

/-!
# Reading a text

A reader takes a cursor and answers with what it read and the cursor behind it, or with
the cause and place of a failure. Readers never move back behind the cursor they are
given, so the bytes left over are an end of the bytes they started with.
-/

namespace PatternEngine

/-- A reader of values of type `α`. -/
abbrev Parse (α : Type) := Cursor → Except ParseError (α × Cursor)

namespace Cursor

/-- Fail at this place. -/
def fail {α : Type} (c : Cursor) (cause : ParseCause) : Except ParseError α :=
  .error ⟨cause, c⟩

/-- The place behind the blanks and comments that a text starts with. A comment goes from
two dashes to the end of the line; the first argument tells that one has begun, the second
counts the bytes before the text. -/
def behindBlanks : Bool → Nat → Bytes → Cursor
  | _, pos, [] => ⟨pos, []⟩
  | true, pos, b :: rest => behindBlanks (b != 0x0a) (pos + 1) rest
  | false, pos, b :: rest =>
    if Ascii.isBlank b then behindBlanks false (pos + 1) rest
    else if b == 0x2d && rest.head? == some 0x2d then behindBlanks true (pos + 1) rest
    else ⟨pos, b :: rest⟩

/-- Pass over blanks and comments. -/
def skipBlanks (c : Cursor) : Cursor := behindBlanks false c.pos c.rest

/-- The text ahead is this word, and the word ends there. -/
def atWord (c : Cursor) (word : String) : Bool :=
  let bytes := Bytes.ofString word
  bytes.isPrefixOf c.rest && !((c.rest.drop bytes.length).head?.any Ident.isPart)

end Cursor

end PatternEngine
