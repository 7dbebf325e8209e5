import PatternEngine.Bytes

/-!
# Identifiers

An identifier starts with a letter or underscore and goes on with letters, digits and
underscores. A qualified one is a prefix and a name joined by a dot, without blanks.
-/

namespace PatternEngine

/-- A name, possibly behind the prefix of a package. -/
structure Ident where
  /-- The prefix under which the package is visible. -/
  qualifier : Option String
  /-- The name within its scope. -/
  base : String
  deriving DecidableEq, Repr

namespace Ident

/-- The identifier as it is written. -/
def toText (name : Ident) : String :=
  match name.qualifier with
  | none => name.base
  | some qualifier => qualifier ++ "." ++ name.base

/-- Split a text at its first dot; without a dot all of it is the name. -/
def ofText (text : String) : Ident :=
  match text.toList.span (· != '.') with
  | (_, []) => ⟨none, text⟩
  | (qualifier, _ :: base) => ⟨some (String.ofList qualifier), String.ofList base⟩

/-- The byte may stand first in a name. -/
def isStart (b : UInt8) : Bool := Ascii.isAlpha b || b == 0x5f

/-- The byte may stand in a name. -/
def isPart (b : UInt8) : Bool := Ascii.isAlnum b || b == 0x5f

/-- The bytes of the name that a text starts with; none when it starts with no name. -/
def nameAhead : Bytes → Bytes
  | [] => []
  | b :: rest => if isStart b then b :: rest.takeWhile isPart else []

/-- The identifier that a text starts with, and its length. A dot belongs to it only when a
further name follows at once. -/
def ahead? (bytes : Bytes) : Option (Ident × Nat) :=
  match nameAhead bytes with
  | [] => none
  | first =>
    match bytes.drop first.length with
    | 0x2e :: rest =>
      match nameAhead rest with
      | [] => some (⟨none, first.toAscii⟩, first.length)
      | second =>
        some (⟨some first.toAscii, second.toAscii⟩, first.length + 1 + second.length)
    | _ => some (⟨none, first.toAscii⟩, first.length)

/-- The names that the language keeps for itself. -/
def keywords : List String := ["package", "import", "local", "alias", "as"]

/-- The identifier is one of the reserved words. -/
def isKeyword (name : Ident) : Bool := name.qualifier.isNone && keywords.contains name.base

end Ident

end PatternEngine
