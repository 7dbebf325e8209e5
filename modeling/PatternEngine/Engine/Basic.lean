import PatternEngine.Engine.Governor
import PatternEngine.Engine.HandleTable
import PatternEngine.Engine.MatchFile

/-!
# Engines

An engine compiles expressions and hands out the programs under handles, which are good on
that engine alone. It searches inputs and files, loads sources and packages, and reads rc-files.

Searches with an encoder that needs nothing but the match are made with the program that the
handle holds; all others are made in the workspace with the key that the handle holds.
-/

namespace PatternEngine

/-- A compiled pattern of an engine. -/
structure PatternHandle where
  /-- The engine. -/
  engine : Nat
  /-- The number of the pattern. -/
  raw : Int32
  deriving DecidableEq, Repr

/-- What a handle leads to. -/
structure HeldPattern where
  /-- The key of the program in the workspace. -/
  key : Nat
  /-- The program. -/
  program : Program
  deriving Repr

/-- The outcome of compiling an expression. -/
structure CompileReply where
  /-- The pattern, unless the expression did not compile. -/
  pattern : Option PatternHandle
  /-- What there is to report. -/
  messages : Diagnostics
  deriving DecidableEq, Repr

/-- What a search or a trace gives. -/
inductive MatchData where
  /-- The output of an encoder that needs nothing but the match. -/
  | buffer (output : Bytes)
  /-- A status in place of output. -/
  | status (code : Int)
  /-- Output that was made in the workspace. -/
  | text (output : Bytes)
  deriving DecidableEq, Repr

/-- The outcome of a search. -/
structure MatchResult where
  /-- Output or a status. -/
  data : MatchData
  /-- Bytes behind the match. -/
  leftover : Nat
  /-- A limit cut the search short. -/
  abend : Bool
  deriving DecidableEq, Repr

/-- The outcome of a trace. -/
structure TraceReply where
  /-- The search found a match. -/
  isMatch : Bool
  /-- The trace, or a status. -/
  data : MatchData
  deriving DecidableEq, Repr

/-- The limit in force and the usage of memory. -/
structure AllocationReply where
  /-- The limit in megabytes; zero for none. -/
  limitMb : Int32
  /-- The usage in kilobytes. -/
  usageKb : Int64
  deriving DecidableEq, Repr

/-- The content of an rc-file. -/
structure RcFileReply where
  /-- The file that was read. -/
  filename : String
  /-- There is such a file. -/
  found : Bool
  /-- The records of its settings, unless it is malformed. -/
  options : Option String
  deriving DecidableEq, Repr

/-- The outcome of carrying out an rc-file. -/
structure RcFileOutcome where
  /-- The file that was read. -/
  filename : String
  /-- There is such a file. -/
  found : Bool
  /-- All went well. -/
  noErrors : Bool
  deriving DecidableEq, Repr

/-- An engine. -/
structure Engine where
  /-- What tells the engine from others. -/
  id : Nat
  /-- Where it was booted from. -/
  installation : Installation
  /-- What it works with. -/
  workspace : Workspace
  /-- Its patterns. -/
  handles : HandleTable HeldPattern := {}
  /-- Its limit on memory. -/
  governor : Governor := {}
  deriving Repr

namespace Engine

/-- Boot an engine. -/
def boot (id : Nat) (installation : Installation) : Engine where
  id
  installation
  workspace := .initial installation

/-- The handle of this engine with a number. -/
def handleOf (e : Engine) (raw : Int32) : PatternHandle := ⟨e.id, raw⟩

/-- What a handle leads to, if it is a handle of this engine. -/
def held? (e : Engine) (pattern : PatternHandle) : Option HeldPattern :=
  if pattern.engine = e.id then e.handles.get? pattern.raw else none

/-- Compile an expression. The program is given up again when no handle is left for it. -/
def compile (e : Engine) (expression : String) : Except EngineError CompileReply × Engine :=
  match e.workspace.compile expression with
  | (none, messages, workspace) => (.ok ⟨none, messages⟩, { e with workspace })
  | (some (key, program), messages, workspace) =>
    match e.handles.insert ⟨key, program⟩ with
    | some (raw, handles) => (.ok ⟨some (e.handleOf raw), messages⟩, { e with workspace, handles })
    | none => (.error .outOfMemory, { e with workspace := workspace.release key })

/-- Give up a pattern. Handles that lead nowhere are passed over. -/
def free (e : Engine) (pattern : PatternHandle) : Engine :=
  if pattern.engine = e.id then
    match e.handles.remove pattern.raw with
    | some (held, handles) => { e with handles, workspace := e.workspace.release held.key }
    | none => e
  else e

/-- Counts of bytes are cut off at the greatest signed number of 32 bits. -/
def clampCount (n : Nat) : Nat := min n 2147483647

/-- A place to start at, counted from one; places before the first count as the first. -/
def startOf (start : Int) : Nat := (max start 1).toNat

/-- Search an input from a place on and encode the match. -/
def matchInput (e : Engine) (pattern : PatternHandle) (start : Int) (encoder : String)
    (input : Bytes) : MatchResult :=
  match e.held? pattern with
  | none => ⟨.status Status.noPattern, 0, false⟩
  | some held =>
    match Encoder.ofName? encoder with
    | some encoder =>
      let outcome := held.program.find input (startOf start)
      let data := match encoder.encode outcome input with
        | .bytes output => .buffer output
        | .status code => .status code
      ⟨data, clampCount outcome.leftover, outcome.abend⟩
    | none =>
      let reply := e.workspace.matchWith held.key encoder (startOf start) input
      let data := match reply.data with
        | .bytes output => .text output
        | .status code => .status code
      ⟨data, clampCount reply.leftover, reply.abend⟩

/-- Search an input from a place on and show the log. -/
def trace (e : Engine) (pattern : PatternHandle) (start : Int) (style : String) (input : Bytes) :
    Except EngineError TraceReply :=
  match e.held? pattern with
  | none => .ok ⟨false, .status Status.noPattern⟩
  | some held =>
    if e.workspace.isIssued held.key then
      match TraceStyle.ofName? style, e.workspace.program? held.key with
      | some style, some p =>
        let trace := p.trace input (startOf start)
        .ok ⟨trace.isMatch, .text (Bytes.ofString (trace.render p input style))⟩
      | _, _ => .error .runtime
    else .ok ⟨false, .status Status.noPattern⟩

/-- Take over a workspace and strip the messages of a load. -/
def settleLoad (e : Engine) (result : Except EngineError LoadReply × Workspace) :
    Except EngineError LoadReply × Engine :=
  (result.1.map fun reply => { reply with messages := reply.messages.strip },
    { e with workspace := result.2 })

/-- Load a source. -/
def load (e : Engine) (fs : FileSystem) (source : String) :
    Except EngineError LoadReply × Engine :=
  e.settleLoad (e.workspace.load fs source none)

/-- Load the source in a file. -/
def loadFile (e : Engine) (fs : FileSystem) (path : String) :
    Except EngineError LoadReply × Engine :=
  e.settleLoad (e.workspace.loadFile fs path)

/-- Import a package under a prefix or its own name. -/
def importPackage (e : Engine) (fs : FileSystem) (name : String) (rename : Option String) :
    Except EngineError LoadReply × Engine :=
  e.settleLoad (e.workspace.importPackage fs (Bytes.ofString name) rename)

/-- Counts of pieces are cut off at the ends of the signed numbers of 32 bits. -/
def clampPieces (n : Int) : Int := max (-2147483648) (min n 2147483647)

/-- The counts that are reported. -/
def clampCounts (counts : FileCounts) : FileCounts :=
  { counts with
    pieces := clampPieces counts.pieces
    matched := clampPieces counts.matched
    unmatched := clampPieces counts.unmatched }

/-- Match a file line by line or as a whole. -/
def matchFile (e : Engine) (host : Host) (pattern : PatternHandle) (encoder : String)
    (whole : Bool) (input output errors : String) : FileCounts × Host :=
  match e.held? pattern with
  | none => (.ofStatus Status.noPattern, host)
  | some held =>
    let (counts, host) := e.workspace.matchFile held.key encoder whole host input output errors
    (clampCounts counts, host)

/-- The configuration as the text of its records. -/
def config (e : Engine) : Except EngineError String :=
  match e.workspace.config? e.installation with
  | some records => .ok records.compact
  | none => .error .encodingFailed

/-- The directories where packages are looked for, and how they were set. -/
def libpath (e : Engine) : String × LibpathSource :=
  (Utf8.decodeLossy e.workspace.libpath, e.workspace.libpathSource)

/-- Look for packages in other directories from now on. -/
def setLibpath (e : Engine) (path : String) : Engine :=
  { e with workspace := e.workspace.setLibpath (Bytes.ofString path) .api }

/-- Ask for the limit on memory, or change it: -1 only asks, zero removes the limit, and any
other number below the least limit is refused. The usage is that of the moment. -/
def allocationLimit (e : Engine) (usageKb : Int64) (request : Option Int32) :
    Except EngineError AllocationReply × Engine :=
  let answer (governor : Governor) : Except EngineError AllocationReply × Engine :=
    (.ok ⟨governor.limitMb, usageKb⟩, { e with governor })
  match request with
  | none => answer e.governor
  | some limit =>
    if limit = -1 then answer e.governor
    else if limit = 0 then answer .disabled
    else match Governor.set? limit usageKb with
      | some governor => answer governor
      | none =>
        (.error (.callFailed ("allocation limit must be at least " ++
          toString Governor.leastLimitMb.toInt ++ " MB")), e)

/-- The rc-file that is meant, and whether it is the one read by default. -/
def rcFileName (e : Engine) (filename : Option String) : String × Bool :=
  match filename with
  | some filename => (filename, false)
  | none => (e.installation.rcFile, true)

/-- Read an rc-file without carrying it out. -/
def readRcFile (e : Engine) (fs : FileSystem) (filename : Option String) :
    Except EngineError RcFileReply :=
  let (filename, _) := e.rcFileName filename
  match Workspace.readRcFile fs (Bytes.ofString filename) with
  | .error fault => .error fault
  | .ok none => .ok ⟨filename, false, none⟩
  | .ok (some none) => .ok ⟨filename, true, none⟩
  | .ok (some (some entries)) =>
    match RcFile.toJson? entries with
    | some records => .ok ⟨filename, true, some (Json.arr records).compact⟩
    | none => .error .encodingFailed

/-- Carry out an rc-file. -/
def executeRcFile (e : Engine) (fs : FileSystem) (filename : Option String) :
    Except EngineError RcFileOutcome × Engine :=
  let (filename, isDefault) := e.rcFileName filename
  let (result, workspace) := e.workspace.executeRcFile fs (Bytes.ofString filename) isDefault
  (result.map fun (found, noErrors) => ⟨filename, found, noErrors⟩, { e with workspace })

end Engine

end PatternEngine
