import PatternEngine.Engine.Error
import PatternEngine.Text.Json
import PatternEngine.Text.Utf8

/-!
# Rc-files

An rc-file has one setting to a line, a key and a quoted value joined by an equals sign. Blank
lines and lines that start with two dashes are comments. The value goes to the last quote of
the line, so it may hold quotes itself. A file with any other line is malformed as a whole.
Lines may be of any length. A text that is too large cannot be read, whatever it says; bytes
that are not a text are read at any size.
-/

namespace PatternEngine

/-- What a setting is about. -/
inductive RcKey where
  /-- The library path. -/
  | libpath
  /-- A source to load. -/
  | loadfile
  /-- A package to import. -/
  | importPackage
  /-- The colours of the colour encoder. -/
  | colors
  deriving DecidableEq, Repr

namespace RcKey

/-- The key as it is written. -/
def name : RcKey → String
  | .libpath => "libpath"
  | .loadfile => "loadfile"
  | .importPackage => "import"
  | .colors => "colors"

/-- The key of a name. -/
def ofName? (text : Bytes) : Option RcKey :=
  [libpath, loadfile, importPackage, colors].find? fun key => Bytes.ofString key.name == text

end RcKey

/-- One setting. -/
structure RcEntry where
  /-- What it is about. -/
  key : RcKey
  /-- Its value. -/
  value : Bytes
  deriving DecidableEq, Repr

namespace RcFile

/-- The line without the carriage return at its end. -/
def dropReturn (line : Bytes) : Bytes := if line.getLast? = some 0x0d then line.dropLast else line

/-- The lines of a file. -/
def lines (content : Bytes) : List Bytes := (content.splitOn 0x0a).map dropReturn

/-- The line says nothing: it is blank or a comment. -/
def isSilent (line : Bytes) : Bool :=
  let text := line.trimStart
  text.isEmpty || [0x2d, 0x2d].isPrefixOf text

/-- The byte may stand in a key. -/
def isKeyPart (b : UInt8) : Bool := Ascii.isAlnum b || b == 0x5f

/-- The value that stands behind the opening quote up to the last quote of the line. -/
def value? (rest : Bytes) : Option Bytes :=
  let text := rest.trimEnd
  if text.getLast? = some 0x22 then some text.dropLast else none

/-- The setting of a line. -/
def entry? (line : Bytes) : Option RcEntry :=
  let text := line.trimStart
  let key := text.takeWhile isKeyPart
  match Bytes.trimStart (text.drop key.length) with
  | 0x3d :: rest =>
    match Bytes.trimStart rest with
    | 0x22 :: rest => do
      let key ← RcKey.ofName? key
      let value ← value? rest
      some ⟨key, value⟩
    | _ => none
  | _ => none

/-- The settings of lines in order; none when one of them is malformed. -/
def entriesOf? (lines : List Bytes) : Option (List RcEntry) :=
  (lines.filter fun line => !isSilent line).mapM entry?

/-- Bytes of the largest text that can be read. -/
def largestText : Nat := 9600

/-- The file can be read: it is small enough, or it is not a text. -/
def isReadable (content : Bytes) : Bool :=
  content.length ≤ largestText || (Utf8.decode? content).isNone

/-- The settings of a file in order; none when the file is malformed. A file that cannot be read
fails before its first line is looked at. -/
def parse? (content : Bytes) : Except EngineError (Option (List RcEntry)) :=
  if isReadable content then .ok (entriesOf? (lines content)) else .error .runtime

/-- The record of a setting. -/
def entryJson? (entry : RcEntry) : Option Json :=
  (Utf8.decode? entry.value).map fun value => .obj [(entry.key.name, .str value)]

/-- The records of settings; none when a value is not text. -/
def toJson? : List RcEntry → Option (List Json)
  | [] => some []
  | entry :: entries => do
    let record ← entryJson? entry
    let records ← toJson? entries
    some (record :: records)

end RcFile

end PatternEngine
