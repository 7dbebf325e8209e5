import PatternEngine.Parse

/-!
# Literals

A string literal stands between double quotes. A byte other than a quote or backslash
stands for itself; an escape is a backslash with a letter, with one of the characters
that brackets and quotes give a meaning to, or with `x` and a byte in hexadecimal.
-/

namespace PatternEngine.Literal

/-- The byte that two characters write in hexadecimal. A plus sign may take the place of
the first digit. -/
def hexByte? (first second : UInt8) : Option UInt8 :=
  if first == 0x2b then Ascii.hexValue? second
  else do
    let high ← Ascii.hexValue? first
    let low ← Ascii.hexValue? second
    return 16 * high + low

/-- Read an escape, starting at its backslash. -/
def escape : Parse UInt8 := fun c =>
  match c.rest.drop 1 with
  | [] => (c.advance 1).fail .unterminatedEscape
  | b :: rest =>
    if b == 0x6e then .ok (0x0a, c.advance 2)
    else if b == 0x72 then .ok (0x0d, c.advance 2)
    else if b == 0x74 then .ok (0x09, c.advance 2)
    else if b == 0x78 then
      match rest with
      | first :: second :: _ =>
        match hexByte? first second with
        | some value => .ok (value, c.advance 4)
        | none => (c.advance 2).fail .invalidHexEscape
      | _ => (c.advance 2).fail .invalidHexEscape
    else if b == 0x22 || b == 0x5c || b == 0x5b || b == 0x5d || b == 0x2d || b == 0x5e then
      .ok (b, c.advance 2)
    else c.fail (.invalidEscape (Ascii.toChar b))

/-- Read the bytes of a literal up to and including its closing quote. Each step takes at
least one byte, so the first argument, the bytes from the opening quote on, bounds the number
of steps. The bytes read so far are in reverse. -/
def bodyFrom (opening : Cursor) : Bytes → Bytes → Parse Bytes
  | [], _, _ => opening.fail .unterminatedLiteral
  | _ :: steps, read, c =>
    match c.peek? with
    | none => opening.fail .unterminatedLiteral
    | some b =>
      if b == 0x22 then .ok (read.reverse, c.advance 1)
      else if b == 0x5c then do
        let (value, c) ← escape c
        bodyFrom opening steps (value :: read) c
      else bodyFrom opening steps (b :: read) (c.advance 1)

/-- Read a literal, starting at its opening quote. -/
def literal : Parse Bytes := fun c => bodyFrom c c.rest [] (c.advance 1)

end PatternEngine.Literal
