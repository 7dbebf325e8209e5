import PatternEngine.Encoder

/-!
# Matches as tables

The encoders of a workspace are given a match as a table of its own. Its places are counted from
one, and the text of a match is cut out of the input by them.
-/

namespace PatternEngine

namespace Bytes

/-- The place that a number stands for in a text of a length: places are counted from one, and
negative numbers count from the end. -/
def placeOf (length : Nat) (n : Int) : Int := if n < 0 then length + n + 1 else n

/-- The bytes from one place up to another, both included, so far as there are such places. -/
def between (bytes : Bytes) (first last : Int) : Bytes :=
  let first := max (placeOf bytes.length first) 1
  let last := min (placeOf bytes.length last) bytes.length
  bytes.slice (first - 1).toNat last.toNat

end Bytes

/-- A match as it is handed to a workspace. -/
inductive MatchTable where
  /-- The name, the place of the first byte and the place behind the last, the text as far as it
  is text, and the matches inside it. -/
  | node (name : String) (first behind : Int) (data : String) (subs : List MatchTable)
  deriving Repr

namespace MatchTable

/-- The place of the first byte. -/
def first : MatchTable → Int
  | .node _ first _ _ _ => first

/-- The place behind the last byte. -/
def behind : MatchTable → Int
  | .node _ _ behind _ _ => behind

/-- The matches inside the match. -/
def subs : MatchTable → List MatchTable
  | .node _ _ _ _ subs => subs

/-- The text of the match. -/
def text (input : Bytes) (table : MatchTable) : Bytes :=
  input.between table.first (table.behind - 1)

mutual

/-- The members of a table, those inside it only if there are any. -/
def toJson : MatchTable → Json
  | .node name first behind data subs =>
    let members : List (String × Json) :=
      [("type", .str name), ("s", .int first), ("e", .int behind), ("data", .str data)]
    match subs with
    | [] => .obj members
    | sub :: subs => .obj (members ++ [("subs", .arr (toJsonList (sub :: subs)))])

/-- The members of the tables of a list. -/
def toJsonList : List MatchTable → List Json
  | [] => []
  | table :: tables => toJson table :: toJsonList tables

end

end MatchTable

namespace MatchTree

mutual

/-- A match as a table. -/
def table (input : Bytes) : MatchTree → MatchTable
  | .node name start stop subs =>
    .node name (start + 1) (stop + 1) (Utf8.decodeLossy (input.slice start stop))
      (tableList input subs)

/-- The matches of a list as tables. -/
def tableList (input : Bytes) : List MatchTree → List MatchTable
  | [] => []
  | tree :: trees => table input tree :: tableList input trees

end

end MatchTree

end PatternEngine
