import PatternEngine.ByteSet.Class
import PatternEngine.Expr.Literal

/-!
# Bracket expressions

A bracket expression is a named class `[:name:]`, or a list of bytes, ranges and nested
bracket expressions. A caret at its start takes the complement over all 256 bytes.
-/

namespace PatternEngine.Bracket

/-- The byte may stand in the name of a class, or mark its complement. -/
def isClassPart (b : UInt8) : Bool := Ascii.isAlpha b || b == 0x5e

/-- The complement of a set, if it is asked for. -/
def complementIf (asked : Bool) (s : ByteSet) : ByteSet := if asked then s.complement else s

/-- Read the name of a class, starting at the colon before it. -/
def namedClass (opening : Cursor) : Parse ByteSet := fun c =>
  let body := (c.rest.drop 1).takeWhile isClassPart
  let behind := c.advance (1 + body.length)
  match behind.rest with
  | 0x3a :: 0x5d :: _ =>
    let complemented := body.head? == some 0x5e
    let name := Bytes.toAscii (if complemented then body.drop 1 else body)
    match NamedClass.ofName? name with
    | some named => .ok (complementIf complemented named.toByteSet, behind.advance 2)
    | none => c.fail (.unknownClass name)
  | _ => opening.fail .unterminatedSet

/-- Read a byte, plain or escaped. -/
def byte : Parse UInt8 := fun c =>
  match c.peek? with
  | none => c.fail .unterminatedSet
  | some b => if b == 0x5c then Literal.escape c else .ok (b, c.advance 1)

/-- Read a byte or a range. A dash makes a range unless the bracket closes behind it. -/
def byteOrRange : Parse ByteSet := fun c => do
  let (lo, c) ← byte c
  match c.rest with
  | 0x2d :: next :: _ =>
    if next == 0x5d then .ok (.singleton lo, c)
    else do
      let (hi, c) ← byte (c.advance 1)
      if hi < lo then c.fail .reversedRange else .ok (.range lo hi, c)
  | _ => .ok (.singleton lo, c)

/-- Read items up to and including the closing bracket and unite them with a set. Each step
takes at least one byte, so the first argument, the bytes ahead, bounds the number of steps.
A nested bracket expression is read by `nested`, and is one level too many when there is
none. -/
def itemsFrom (nested : Option (Cursor → Parse ByteSet)) (opening : Cursor) :
    Bytes → ByteSet → Parse ByteSet
  | [], _, _ => opening.fail .unterminatedSet
  | _ :: steps, s, c =>
    match c.peek? with
    | none => opening.fail .unterminatedSet
    | some b =>
      if b == 0x5d then .ok (s, c.advance 1)
      else if b == 0x5b then
        match nested with
        | none => (c.advance 1).fail .nestingTooDeep
        | some bracket => do
          let (t, c) ← bracket c (c.advance 1)
          itemsFrom nested opening steps (s.union t) c
      else do
        let (t, c) ← byteOrRange c
        itemsFrom nested opening steps (s.union t) c

/-- Read a bracket expression behind its opening bracket, with a reader for nested ones. -/
def bracketOf (nested : Option (Cursor → Parse ByteSet)) (opening : Cursor) : Parse ByteSet :=
  fun c =>
    if c.peek? == some 0x3a then namedClass opening c
    else do
      let complemented := c.peek? == some 0x5e
      let c := if complemented then c.advance 1 else c
      let (s, c) ← itemsFrom nested opening c.rest .empty c
      .ok (complementIf complemented s, c)

/-- Read a bracket expression behind its opening bracket, nested at most `levels` deep. The
first cursor is at the bracket, where a missing end is reported. -/
def bracket : (levels : Nat) → (opening : Cursor) → Parse ByteSet
  | 0 => bracketOf none
  | levels + 1 => bracketOf (some (bracket levels))

end PatternEngine.Bracket
