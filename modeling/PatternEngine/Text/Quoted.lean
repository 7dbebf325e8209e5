import PatternEngine.Text.Printable

/-!
# Quoted text

A text is shown between double quotes. Quotes, backslashes, the null character and the
three common line and tab characters have escapes of two characters, and every other
character that is not printable is shown by its code point.
-/

namespace PatternEngine.Quoted

/-- The digits of a number to base sixteen, in small letters. -/
def hex (n : Nat) : List Char := Nat.toDigits 16 n

/-- One character as it stands between the quotes. -/
def escape (c : Char) : List Char :=
  if c = Char.ofNat 0 then ['\\', '0']
  else if c = '\t' then ['\\', 't']
  else if c = '\r' then ['\\', 'r']
  else if c = '\n' then ['\\', 'n']
  else if c = '"' then ['\\', '"']
  else if c = '\\' then ['\\', '\\']
  else if Printable.isPrintable c then [c]
  else '\\' :: 'u' :: '\x7b' :: hex c.toNat ++ ['\x7d']

/-- The text between double quotes. -/
def quote (s : String) : String := String.ofList ('"' :: s.toList.flatMap escape ++ ['"'])

end PatternEngine.Quoted
