import PatternEngine.ByteSet.Basic

/-!
# Named classes

The classes that may stand between `[:` and `:]`. They are classes of ASCII, so no byte
above 127 belongs to any of them.
-/

namespace PatternEngine

/-- A named class of bytes. -/
inductive NamedClass where
  /-- Letters. -/
  | alpha
  /-- Decimal digits. -/
  | digit
  /-- Letters and decimal digits. -/
  | alnum
  /-- Blanks, the vertical tab among them. -/
  | space
  /-- Capital letters. -/
  | upper
  /-- Small letters. -/
  | lower
  /-- Graphic characters other than letters and digits. -/
  | punct
  /-- Hexadecimal digits. -/
  | xdigit
  /-- Graphic characters and the space. -/
  | print
  /-- Graphic characters. -/
  | graph
  /-- Control characters. -/
  | cntrl
  deriving DecidableEq, Repr

namespace NamedClass

/-- The class of a name. -/
def ofName? : String → Option NamedClass
  | "alpha" => some .alpha
  | "digit" => some .digit
  | "alnum" => some .alnum
  | "space" => some .space
  | "upper" => some .upper
  | "lower" => some .lower
  | "punct" => some .punct
  | "xdigit" => some .xdigit
  | "print" => some .print
  | "graph" => some .graph
  | "cntrl" => some .cntrl
  | _ => none

/-- The byte belongs to the class. -/
def contains (c : NamedClass) (b : UInt8) : Bool :=
  match c with
  | .alpha => Ascii.isAlpha b
  | .digit => Ascii.isDigit b
  | .alnum => Ascii.isAlnum b
  | .space => Ascii.isBlank b || b == 0x0b
  | .upper => Ascii.isUpper b
  | .lower => Ascii.isLower b
  | .punct => Ascii.isGraphic b && !Ascii.isAlnum b
  | .xdigit => (Ascii.hexValue? b).isSome
  | .print => Ascii.isGraphic b || b == 0x20
  | .graph => Ascii.isGraphic b
  | .cntrl => Ascii.isControl b

/-- The bytes of the class. -/
def toByteSet (c : NamedClass) : ByteSet := ByteSet.ofPred c.contains

/-- Membership in the set of a class. -/
@[simp] theorem contains_toByteSet (c : NamedClass) (b : UInt8) :
    c.toByteSet.contains b = c.contains b := by
  simp [toByteSet]

end NamedClass

end PatternEngine
