import PatternEngine.Engine.FileWriter
import PatternEngine.Engine.Workspace

/-!
# Matching files

A file is matched line by line or as a whole. What matches goes to an output file in encoded
form and what does not goes to an error file as it is, each piece with a line feed behind it.
When both are the same file, each is written by a writer of its own.
-/

namespace PatternEngine

/-- Where output goes. -/
inductive Sink where
  /-- A standard stream. -/
  | stream
  /-- A file. -/
  | file (location : List Bytes)
  deriving DecidableEq, Repr

/-- How many pieces there were, and where they went. -/
structure FileCounts where
  /-- Pieces in all; -1 when nothing was read and `matched` is a status. -/
  pieces : Int
  /-- Pieces that matched. -/
  matched : Int
  /-- Pieces that did not match. -/
  unmatched : Int
  /-- Why a file could not be used. -/
  fault : Option String
  deriving DecidableEq, Repr

/-- A status in place of counts. -/
def FileCounts.ofStatus (code : Int) : FileCounts := ⟨-1, code, 0, none⟩

/-- A file could not be used. -/
def FileCounts.ofFault (fault : String) : FileCounts := ⟨-1, Status.fileFault, 0, some fault⟩

namespace MatchFile

/-- The names that mean a standard stream. -/
def isStream (name : String) : Bool := name == "" || name == "-"

/-- The lines of a text, without an empty one at the end. -/
def lines (content : Bytes) : List Bytes :=
  let pieces := content.splitOn 0x0a
  if pieces.getLast? = some [] then pieces.dropLast else pieces

/-- The pieces of a text. -/
def pieces (whole : Bool) (content : Bytes) : List Bytes :=
  if whole then [content] else lines content

/-- What a line of output is for. -/
inductive Channel where
  /-- Pieces that match. -/
  | output
  /-- Pieces that do not match. -/
  | errors
  deriving DecidableEq, Repr

/-- Lines of output with their channels. -/
abbrev Lines := List (Channel × Bytes)

/-- What was counted and put out so far. -/
structure Tally where
  /-- Pieces in all. -/
  pieces : Nat := 0
  /-- Pieces that matched. -/
  matched : Nat := 0
  /-- Pieces that did not match. -/
  unmatched : Nat := 0
  /-- The lines of output, latest first. -/
  lines : Lines := []
  deriving DecidableEq, Repr

/-- Count a piece by what the search in it gave. -/
def Tally.add (tally : Tally) (piece : Bytes) (data : Encoded) : Tally :=
  match data with
  | .bytes output =>
    { tally with
      pieces := tally.pieces + 1
      matched := tally.matched + 1
      lines := (.output, output) :: tally.lines }
  | .status code =>
    if code = Status.isMatch then
      { tally with pieces := tally.pieces + 1, matched := tally.matched + 1 }
    else
      { tally with
        pieces := tally.pieces + 1
        unmatched := tally.unmatched + 1
        lines := (.errors, piece) :: tally.lines }

/-- Match the pieces of a text. -/
def tallyOf (reply : Bytes → MatchReply) (pieces : List Bytes) : Tally :=
  pieces.foldl (fun tally piece => tally.add piece (reply piece).data) {}

/-- The line feed behind a line. -/
def lineEnd : Bytes := [0x0a]

/-- The lines of a channel with a line feed behind each. -/
def textOf (channel : Channel) (lines : Lines) : Bytes :=
  (lines.filter (·.1 == channel)).flatMap (·.2 ++ lineEnd)

/-- Write a line and its end. -/
def writeLine (w : FileWriter) (line : Bytes) : List Block × FileWriter :=
  let (first, w) := w.write line
  let (second, w) := w.write lineEnd
  (first ++ second, w)

/-- The blocks that come out when the two channels have a writer each. The output is closed
before the errors. -/
def blocks : Lines → (output errors : FileWriter) → List Block
  | [], output, errors => [output.flush.1, errors.flush.1]
  | (.output, line) :: lines, output, errors =>
    let (done, output) := writeLine output line
    done ++ blocks lines output errors
  | (.errors, line) :: lines, output, errors =>
    let (done, errors) := writeLine errors line
    done ++ blocks lines output errors

/-- The content of a file that both channels are written to. -/
def sharedText (lines : Lines) : Bytes := Block.coverAll (blocks lines {} {})

/-- Read the input; say why it cannot be read. -/
def readInput (host : Host) (name : String) : Except String (Bytes × Host) :=
  if isStream name then .ok (host.input, { host with input := [] })
  else match host.files.openForReading (Bytes.ofString name) with
    | .error fault => .error ("cannot open input file: " ++ fault.describe name)
    | .ok none => .error ("cannot read input file " ++ name)
    | .ok (some content) => .ok (content, host)

/-- Open a file for output; say why it cannot be opened. -/
def openSink (host : Host) (what name : String) : Except String (Sink × Host) :=
  if isStream name then .ok (.stream, host)
  else match host.files.openForWriting (Bytes.ofString name) with
    | .error fault => .error ("cannot open " ++ what ++ " file: " ++ fault.describe name)
    | .ok (location, files) => .ok (.file location, { host with files })

/-- Put text into the output. -/
def writeOutput (host : Host) (bytes : Bytes) : Sink → Host
  | .stream => { host with output := host.output ++ bytes }
  | .file location => { host with files := host.files.put location bytes }

/-- Put text into the error output. -/
def writeErrors (host : Host) (bytes : Bytes) : Sink → Host
  | .stream => { host with errors := host.errors ++ bytes }
  | .file location => { host with files := host.files.put location bytes }

/-- Write lines to where the channels go. -/
def writeLines (host : Host) (lines : Lines) (output errors : Sink) : Host :=
  if output = errors && output != .stream then writeOutput host (sharedText lines) output
  else
    writeErrors (writeOutput host (textOf .output lines) output) (textOf .errors lines) errors

/-- Match a file. The output file is made before the error file is opened, and stays when that
one cannot be. -/
def run (reply : Bytes → MatchReply) (whole : Bool) (host : Host) (input output errors : String) :
    FileCounts × Host :=
  match readInput host input with
  | .error fault => (.ofFault fault, host)
  | .ok (content, host) =>
    match openSink host "output" output with
    | .error fault => (.ofFault fault, host)
    | .ok (outputSink, host) =>
      match openSink host "error" errors with
      | .error fault => (.ofFault fault, host)
      | .ok (errorSink, host) =>
        let tally := tallyOf reply (pieces whole content)
        (⟨tally.pieces, tally.matched, tally.unmatched, none⟩,
          writeLines host tally.lines.reverse outputSink errorSink)

end MatchFile

/-- Match a file with the program of a key. -/
def Workspace.matchFile (w : Workspace) (key : Nat) (encoder : String) (whole : Bool) (host : Host)
    (input output errors : String) : FileCounts × Host :=
  if !w.isIssued key then (.ofStatus Status.noPattern, host)
  else if (w.matchWith key encoder 1 []).data = .status Status.noEncoder then
    (.ofStatus Status.noEncoder, host)
  else MatchFile.run (w.matchWith key encoder 1) whole host input output errors

end PatternEngine
