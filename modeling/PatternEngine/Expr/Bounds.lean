import PatternEngine.Parse

/-!
# Repetition bounds

Braces directly behind an operand that hold only digits, commas and spaces are the bounds
of a repetition; any other brace opens a group.
-/

namespace PatternEngine.Bounds

/-- Bounds fit in 32 bits. -/
def limit : Nat := UInt32.size

/-- The byte may stand between the braces. -/
def isPart (b : UInt8) : Bool := Ascii.isDigit b || b == 0x2c || b == 0x20

/-- The number that decimal digits write. -/
def decimal (digits : Bytes) : Nat :=
  digits.foldl (fun n b => 10 * n + (b.toNat - 0x30)) 0

/-- The number of a bound, or none where none is written. -/
def number (c : Cursor) (digits : Bytes) : Except ParseError (Option Nat) :=
  if digits.isEmpty then .ok none
  else if decimal digits < limit then .ok (some (decimal digits))
  else c.fail .boundTooLarge

/-- The least and the greatest number of copies that the text between the braces writes,
its spaces left out. -/
def ofBody (c : Cursor) (body : Bytes) : Except ParseError (Nat × Option Nat) :=
  match Bytes.splitOn 0x2c body with
  | [exact] =>
    if exact.isEmpty then c.fail .invalidBounds
    else do
      let n ← number c exact
      .ok (n.getD 0, n)
  | [lower, upper] => do
    let least ← number c lower
    let most ← number c upper
    if most.any (· < least.getD 0) then c.fail (.reversedBounds body.toAscii)
    else .ok (least.getD 0, most)
  | _ => c.fail .invalidBounds

/-- Read bounds, starting at the opening brace; none when the brace opens a group. -/
def bounds : Parse (Option (Nat × Option Nat)) := fun c =>
  let inside := (c.rest.drop 1).takeWhile isPart
  let behind := c.advance (1 + inside.length)
  if behind.peek? == some 0x7d then do
    let pair ← ofBody c (inside.filter (· != 0x20))
    .ok (some pair, behind.advance 1)
  else .ok (none, c)

end PatternEngine.Bounds
