import PatternEngine.Match.Search
import PatternEngine.Status
import PatternEngine.Text.Json

/-!
# Encoding matches

The four encoders that need nothing but the match and the input.
-/

namespace PatternEngine

/-- A form of output for a match. -/
inductive Encoder where
  /-- The tree of the match. -/
  | json
  /-- The whole input. -/
  | line
  /-- Nothing but a status. -/
  | bool
  /-- The text of the match. -/
  | text
  deriving DecidableEq, Repr

/-- What an encoder puts out. -/
inductive Encoded where
  /-- Bytes of output. -/
  | bytes (output : Bytes)
  /-- A status in place of output. -/
  | status (code : Int)
  deriving DecidableEq, Repr

namespace MatchTree

mutual

/-- The members that describe a match: its name, its place in the input counted from one, its
text, and the matches inside it, if there are any. -/
def toJson (input : Bytes) : MatchTree → Json
  | .node name start stop subs =>
    let members : List (String × Json) :=
      [("type", .str name), ("s", .nat (start + 1)), ("e", .nat (stop + 1)),
        ("data", .str (Utf8.decodeLossy (input.slice start stop)))]
    match subs with
    | [] => .obj members
    | sub :: subs => .obj (members ++ [("subs", .arr (toJsonList input (sub :: subs)))])

/-- The descriptions of a list of matches. -/
def toJsonList (input : Bytes) : List MatchTree → List Json
  | [] => []
  | tree :: trees => toJson input tree :: toJsonList input trees

end

end MatchTree

namespace Encoder

/-- All encoders of this kind. -/
def all : List Encoder := [.json, .line, .bool, .text]

/-- The name of an encoder. -/
def name : Encoder → String
  | .json => "json"
  | .line => "line"
  | .bool => "bool"
  | .text => "matches"

/-- The encoder of a name. -/
def ofName? (text : String) : Option Encoder := all.find? fun encoder => encoder.name == text

/-- The output for a match. -/
def encodeTree (encoder : Encoder) (tree : MatchTree) (input : Bytes) : Encoded :=
  match encoder with
  | .json => .bytes (Bytes.ofString (tree.toJson input).compact)
  | .line => .bytes input
  | .bool => .status Status.isMatch
  | .text => .bytes (tree.text input)

/-- The output for the outcome of a search. -/
def encode (encoder : Encoder) (outcome : Outcome) (input : Bytes) : Encoded :=
  match outcome.tree with
  | none => .status Status.noMatch
  | some tree => encoder.encodeTree tree input

end Encoder

end PatternEngine
