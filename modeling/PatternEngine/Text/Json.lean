import PatternEngine.Text.Quoted

/-!
# JSON values

Values keep the order of their members. The compact form has no blanks; the indented
form puts one item on each line, two further spaces in for each level.
-/

namespace PatternEngine

/-- A JSON value whose numbers are integers. -/
inductive Json where
  /-- The null value. -/
  | null
  /-- A truth value. -/
  | bool (b : Bool)
  /-- An integer. -/
  | int (n : Int)
  /-- A string. -/
  | str (s : String)
  /-- An array. -/
  | arr (items : List Json)
  /-- An object, its members in the order they are written. -/
  | obj (members : List (String × Json))

namespace Json

/-- A natural number as a value. -/
def nat (n : Nat) : Json := .int n

/-- One character of a string literal. Control characters below the space have the short
escapes or four hexadecimal digits; all other characters but the quote and the backslash
stand for themselves. -/
def escape (c : Char) : List Char :=
  if c = '"' then ['\\', '"']
  else if c = '\\' then ['\\', '\\']
  else if 0x20 ≤ c.toNat then [c]
  else if c = '\n' then ['\\', 'n']
  else if c = '\r' then ['\\', 'r']
  else if c = '\t' then ['\\', 't']
  else if c = Char.ofNat 8 then ['\\', 'b']
  else if c = Char.ofNat 12 then ['\\', 'f']
  else '\\' :: 'u' :: '0' :: '0' :: Nat.digitChar (c.toNat / 16) :: [Nat.digitChar (c.toNat % 16)]

/-- A string literal. -/
def quote (s : String) : List Char := '"' :: s.toList.flatMap escape ++ ['"']

/-- The decimal digits of an integer, after a minus sign when it is negative. -/
def decimal : Int → List Char
  | .ofNat n => Nat.toDigits 10 n
  | .negSucc n => '-' :: Nat.toDigits 10 (n + 1)

mutual

/-- The characters of a value written without blanks. -/
def compactChars : Json → List Char
  | .null => ['n', 'u', 'l', 'l']
  | .bool true => ['t', 'r', 'u', 'e']
  | .bool false => ['f', 'a', 'l', 's', 'e']
  | .int n => decimal n
  | .str s => quote s
  | .arr items => '[' :: compactItems items ++ [']']
  | .obj members => '\x7b' :: compactMembers members ++ ['\x7d']

/-- The items of an array, separated by commas. -/
def compactItems : List Json → List Char
  | [] => []
  | [item] => compactChars item
  | item :: items => compactChars item ++ ',' :: compactItems items

/-- The members of an object, separated by commas. -/
def compactMembers : List (String × Json) → List Char
  | [] => []
  | [(key, value)] => quote key ++ ':' :: compactChars value
  | (key, value) :: members =>
    quote key ++ ':' :: (compactChars value ++ ',' :: compactMembers members)

end

/-- The text of a value without blanks. -/
def compact (value : Json) : String := String.ofList value.compactChars

/-- A new line with two spaces for each level. -/
def newline (level : Nat) : List Char := '\n' :: List.replicate (2 * level) ' '

mutual

/-- The characters of a value at a level of indentation, one item to a line. -/
def indentedChars (level : Nat) : Json → List Char
  | .null => ['n', 'u', 'l', 'l']
  | .bool true => ['t', 'r', 'u', 'e']
  | .bool false => ['f', 'a', 'l', 's', 'e']
  | .int n => decimal n
  | .str s => quote s
  | .arr [] => ['[', ']']
  | .arr (item :: items) =>
    '[' :: indentedItems (level + 1) (item :: items) ++ newline level ++ [']']
  | .obj [] => ['\x7b', '\x7d']
  | .obj (member :: members) =>
    '\x7b' :: indentedMembers (level + 1) (member :: members) ++ newline level ++ ['\x7d']

/-- The items of an array, each on its line, separated by commas. -/
def indentedItems (level : Nat) : List Json → List Char
  | [] => []
  | [item] => newline level ++ indentedChars level item
  | item :: items =>
    newline level ++ indentedChars level item ++ ',' :: indentedItems level items

/-- The members of an object, each on its line, separated by commas. -/
def indentedMembers (level : Nat) : List (String × Json) → List Char
  | [] => []
  | [(key, value)] => newline level ++ quote key ++ ':' :: ' ' :: indentedChars level value
  | (key, value) :: members =>
    newline level ++ quote key ++ ':' :: ' ' ::
      (indentedChars level value ++ ',' :: indentedMembers level members)

end

/-- The text of a value, one item to a line. -/
def pretty (value : Json) : String := String.ofList (value.indentedChars 0)

/-- Put a member into a list of members in ascending order of their keys. -/
def insertMember (member : String × Json) : List (String × Json) → List (String × Json)
  | [] => [member]
  | other :: members =>
    if other.1 < member.1 then other :: insertMember member members
    else member :: other :: members

mutual

/-- The same value with the members of every object in ascending order of their keys. -/
def sortKeys : Json → Json
  | .arr items => .arr (sortKeysItems items)
  | .obj members => .obj (sortKeysMembers members)
  | value => value

/-- Each value of a list with the members of its objects in ascending order. -/
def sortKeysItems : List Json → List Json
  | [] => []
  | item :: items => sortKeys item :: sortKeysItems items

/-- Members in ascending order, and the members of their values likewise. -/
def sortKeysMembers : List (String × Json) → List (String × Json)
  | [] => []
  | (key, value) :: members => insertMember (key, sortKeys value) (sortKeysMembers members)

end

end Json

end PatternEngine
