import PatternEngine.Engine.MatchTable

/-!
# Painting matches

The colour encoder puts out the text of a match with the innermost matches painted, each in
the colour of its name. A colour is the body of a terminal control sequence.
-/

namespace PatternEngine

/-- The colours of names. The first pair of a name is the one that counts. -/
abbrev Palette := List (Bytes × Bytes)

namespace Palette

/-- The colours that have names, with their codes. -/
def named : List (String × String) :=
  [("black", "30"), ("red", "31"), ("green", "32"), ("yellow", "33"), ("blue", "34"),
    ("magenta", "35"), ("cyan", "36"), ("white", "37")]

/-- The colours before any are set: one for anonymous matches and one for all others. -/
def initial : Palette :=
  [(Bytes.ofString "*", Bytes.ofString "1;34"), (Bytes.ofString "default", Bytes.ofString "1;32")]

/-- The code of a colour, which may be a name or a code. -/
def codeOf (color : Bytes) : Bytes :=
  match named.find? fun pair => Bytes.ofString pair.1 == color with
  | some (_, code) => Bytes.ofString code
  | none => color

/-- The name and the colour in an assignment. -/
def assignment? (text : Bytes) : Option (Bytes × Bytes) :=
  match text.span (· != 0x3d) with
  | (name, _ :: color) => some (Bytes.trim name, Bytes.trim color)
  | (_, []) => none

/-- Set the colours that a list of assignments separated by colons gives. Pieces without an
equals sign are passed over. -/
def set (palette : Palette) (setting : Bytes) : Palette :=
  (setting.splitOn 0x3a).foldl (fun palette piece =>
    match assignment? piece with
    | some (name, color) => (name, codeOf color) :: palette
    | none => palette) palette

/-- The colour of a name, or the one for names without a colour. -/
def colorOf (palette : Palette) (name : String) : Bytes :=
  ((palette.lookup (Bytes.ofString name)).or (palette.lookup (Bytes.ofString "default"))).getD []

end Palette

/-- A piece of painted text. -/
inductive Segment where
  /-- Text as it is. -/
  | plain (text : Bytes)
  /-- Text in a colour. -/
  | painted (color text : Bytes)
  deriving DecidableEq, Repr

namespace Segment

/-- The text of a piece. -/
def text : Segment → Bytes
  | .plain text => text
  | .painted _ text => text

/-- The piece as it is put out: painted text stands between two control sequences. -/
def render : Segment → Bytes
  | .plain text => text
  | .painted color text => [0x1b, 0x5b] ++ color ++ [0x6d] ++ text ++ [0x1b, 0x5b, 0x30, 0x6d]

end Segment

namespace MatchTable

mutual

/-- The pieces of a match. A match with none inside it is painted. -/
def paint (palette : Palette) (input : Bytes) : MatchTable → List Segment
  | .node name first behind data [] =>
    [.painted (palette.colorOf name) (text input (.node name first behind data []))]
  | .node _ first behind _ (sub :: subs) => paintFrom palette input behind first (sub :: subs)

/-- The pieces from a place up to the end of a match, given the matches inside it that are
still to come. -/
def paintFrom (palette : Palette) (input : Bytes) (behind : Int) :
    Int → List MatchTable → List Segment
  | pos, [] => [.plain (input.between pos (behind - 1))]
  | pos, sub :: subs =>
    .plain (input.between pos (sub.first - 1)) :: paint palette input sub ++
      paintFrom palette input behind sub.behind subs

end

/-- The painted text of a match. -/
def painted (palette : Palette) (input : Bytes) (table : MatchTable) : Bytes :=
  (table.paint palette input).flatMap Segment.render

end MatchTable

end PatternEngine
