import PatternEngine.Boundary.Text
import PatternEngine.Engine.Basic

/-!
# Calls at the boundary

Every call names an engine, or none, and gives back a code: zero when the call was carried
out, and otherwise what kept it from being. Without an engine no call is carried out. A
pattern that does not compile, a source that cannot be stored and a search without a match
are results of calls that were carried out.
-/

namespace PatternEngine.Boundary

/-- What a call gives back: its code, and the places it was told to write to. -/
structure Answer (α : Type) where
  /-- Zero, or why the call was not carried out. -/
  code : Int
  /-- The places with what they hold now. -/
  cells : α
  deriving DecidableEq, Repr

/-- The message for a call that failed for another reason than what it was given. -/
def faultMessage : String := "call to the rosie engine failed (see log)"

/-- A truth value as a number. -/
def flag (b : Bool) : Int32 := if b then 1 else 0

/-- A count, cut off at the ends of the signed numbers of 32 bits. -/
def clamp (n : Int) : Int32 := Int32.ofInt (max (-2147483648) (min n 2147483647))

/-- The text of what there is to report. -/
def messageText (messages : Diagnostics) : ForeignText := .ofString? messages.toText?

/-! ## Patterns -/

/-- The places of a compilation. -/
structure CompileCells where
  /-- The number of the pattern; zero when there is none. -/
  pattern : Cell Int32
  /-- What there is to report. -/
  messages : Cell ForeignText
  deriving DecidableEq, Repr

/-- Write the outcome of a compilation. -/
def CompileCells.write (cells : CompileCells) :
    Except EngineError CompileReply → Answer CompileCells
  | .ok reply =>
    ⟨Status.success,
      { pattern := cells.pattern.put ((reply.pattern.map (·.raw)).getD 0)
        messages := cells.messages.put (messageText reply.messages) }⟩
  | .error fault =>
    ⟨fault.code,
      { pattern := cells.pattern.put 0
        messages := cells.messages.put (.ofString faultMessage) }⟩

/-- Compile an expression. -/
def compile (engine : Option Engine) (expression : TextArgument) (cells : CompileCells) :
    Answer CompileCells × Option Engine :=
  let cells := { cells with messages := cells.messages.put .null }
  match engine, cells.pattern, expression.string? with
  | none, _, _ | _, none, _ => (⟨Status.callFailed, cells⟩, engine)
  | some _, some _, none =>
    (⟨Status.callFailed, { cells with pattern := cells.pattern.put 0 }⟩, engine)
  | some e, some _, some expression =>
    let (result, e) := e.compile expression
    (cells.write result, some e)

/-- Give up a pattern. Numbers that lead to no pattern are passed over. -/
def free (engine : Option Engine) (pattern : Int32) : Answer Unit × Option Engine :=
  match engine with
  | none => (⟨Status.callFailed, ()⟩, none)
  | some e => (⟨Status.success, ()⟩, some (e.free (e.handleOf pattern)))

/-! ## Searching -/

/-- What a search gives back. -/
structure ForeignMatch where
  /-- The output, or a code. -/
  data : ForeignText := .null
  /-- Bytes behind the match. -/
  leftover : Int32 := 0
  /-- A limit cut the search short. -/
  abend : Int32 := 0
  deriving DecidableEq, Repr

/-- Output or a status as a text. -/
def dataText : MatchData → ForeignText
  | .buffer output | .text output => .ofBytes output
  | .status code => .ofCode code

/-- Take the output out of a result, to be lent to the caller. A status stays in its place. -/
def lend (result : MatchResult) : Option Bytes × MatchResult :=
  match result.data with
  | .buffer output | .text output => (some output, { result with data := .status 0 })
  | .status _ => (none, result)

/-- What a search gives back: a view of the output that is lent, which must fit, or the status that
stayed in the result. -/
def ForeignMatch.ofLent : Option Bytes × MatchResult → Except Int ForeignMatch
  | (some output, result) =>
    match ForeignText.ofBytes output with
    | .status _ => .error Status.outOfMemory
    | view => .ok ⟨view, clamp result.leftover, flag result.abend⟩
  | (none, result) =>
    match result.data with
    | .status code => .ok ⟨.ofCode code, clamp result.leftover, flag result.abend⟩
    | .buffer _ | .text _ => .error Status.callFailed

/-- Search an input from a place on and encode the match. A search without encoder gives the
code that no encoder has the name. -/
def matchInput (engine : Option Engine) (pattern start : Int32) (encoder : NameArgument)
    (input : TextArgument) (cell : Cell ForeignMatch) : Answer (Cell ForeignMatch) :=
  match engine, cell with
  | none, _ | _, none => ⟨Status.callFailed, cell⟩
  | some e, some _ =>
    match encoder.string? with
    | none => ⟨Status.success, cell.put { data := .ofCode Status.noEncoder }⟩
    | some encoder =>
      match input.bytes? with
      | none => ⟨Status.callFailed, cell⟩
      | some input =>
        let result := e.matchInput (e.handleOf pattern) start.toInt encoder input
        match ForeignMatch.ofLent (lend result) with
        | .ok found => ⟨Status.success, cell.put found⟩
        | .error code => ⟨code, cell⟩

/-- The places of a trace. -/
structure TraceCells where
  /-- The search found a match. -/
  isMatch : Cell Int32
  /-- The trace, or a code. -/
  trace : Cell ForeignText
  deriving DecidableEq, Repr

/-- Search an input from a place on and show the log. -/
def trace (engine : Option Engine) (pattern start : Int32) (style : NameArgument)
    (input : TextArgument) (cells : TraceCells) : Answer TraceCells :=
  match engine with
  | none => ⟨Status.callFailed, cells⟩
  | some e =>
    let cells := { cells with isMatch := cells.isMatch.put 0 }
    match style.string? with
    | none => ⟨Status.success, { cells with trace := cells.trace.put (.ofCode Status.noEncoder) }⟩
    | some style =>
      match input.bytes? with
      | none => ⟨Status.callFailed, cells⟩
      | some input =>
        match e.trace (e.handleOf pattern) start.toInt style input with
        | .ok reply =>
          ⟨Status.success,
            { isMatch := cells.isMatch.put (flag reply.isMatch)
              trace := cells.trace.put (dataText reply.data) }⟩
        | .error fault => ⟨fault.code, { cells with trace := cells.trace.put .null }⟩

/-- The places of a search in a file. -/
structure MatchFileCells where
  /-- Pieces in all; -1 when `matched` is a code. -/
  pieces : Cell Int32
  /-- Pieces that matched. -/
  matched : Cell Int32
  /-- Pieces that did not match. -/
  unmatched : Cell Int32
  /-- Why a file could not be used. -/
  fault : Cell ForeignText
  deriving DecidableEq, Repr

/-- Match a file line by line or as a whole. Without names the standard streams are used. -/
def matchFile (engine : Option Engine) (host : Host) (pattern : Int32) (encoder : NameArgument)
    (whole : Int32) (input output errors : NameArgument) (cells : MatchFileCells) :
    Answer MatchFileCells × Host :=
  match engine with
  | none => (⟨Status.callFailed, cells⟩, host)
  | some e =>
    let cells := { cells with fault := cells.fault.put .null }
    match encoder.string? with
    | none =>
      (⟨Status.success,
        { cells with
          pieces := cells.pieces.put (-1)
          matched := cells.matched.put (clamp Status.noEncoder)
          unmatched := cells.unmatched.put 0 }⟩, host)
    | some encoder =>
      let (counts, host) := e.matchFile host (e.handleOf pattern) encoder (whole != 0)
        (input.string?.getD "") (output.string?.getD "") (errors.string?.getD "")
      (⟨Status.success,
        { pieces := cells.pieces.put (clamp counts.pieces)
          matched := cells.matched.put (clamp counts.matched)
          unmatched := cells.unmatched.put (clamp counts.unmatched)
          fault := cells.fault.put (.ofString? counts.fault) }⟩, host)

/-! ## Sources -/

/-- The places of a load or an import. -/
structure LoadCells where
  /-- All went well. -/
  ok : Cell Int32
  /-- The package that was defined or imported. -/
  name : Cell ForeignText
  /-- What there is to report. -/
  messages : Cell ForeignText
  deriving DecidableEq, Repr

/-- Write the outcome of a load or an import. -/
def LoadCells.write (cells : LoadCells) : Except EngineError LoadReply → Answer LoadCells
  | .ok reply =>
    ⟨Status.success,
      { ok := cells.ok.put (flag reply.ok)
        name := cells.name.put (.ofString? reply.name)
        messages := cells.messages.put (messageText reply.messages) }⟩
  | .error fault =>
    ⟨fault.code,
      { ok := cells.ok.put 0
        name := cells.name.put .null
        messages := cells.messages.put (.ofString faultMessage) }⟩

/-- Carry out a load or an import of what a text names. -/
def loadWith (call : Engine → String → Except EngineError LoadReply × Engine)
    (engine : Option Engine) (text : TextArgument) (cells : LoadCells) :
    Answer LoadCells × Option Engine :=
  match engine, text.string? with
  | none, _ | _, none => (⟨Status.callFailed, cells⟩, engine)
  | some e, some text =>
    let (result, e) := call e text
    (cells.write result, some e)

/-- Load a source. -/
def load (engine : Option Engine) (fs : FileSystem) (source : TextArgument) (cells : LoadCells) :
    Answer LoadCells × Option Engine :=
  loadWith (·.load fs) engine source cells

/-- Load the source in a file. -/
def loadFile (engine : Option Engine) (fs : FileSystem) (path : TextArgument)
    (cells : LoadCells) : Answer LoadCells × Option Engine :=
  loadWith (·.loadFile fs) engine path cells

/-- Import a package under a prefix, or under its own name when none is passed. -/
def importPackage (engine : Option Engine) (fs : FileSystem) (name rename : TextArgument)
    (cells : LoadCells) : Answer LoadCells × Option Engine :=
  loadWith (fun e name => e.importPackage fs name rename.string?) engine name cells

/-! ## Settings -/

/-- Ask for the configuration. -/
def config (engine : Option Engine) (cell : Cell ForeignText) : Answer (Cell ForeignText) :=
  match engine with
  | none => ⟨Status.callFailed, cell⟩
  | some e =>
    match e.config with
    | .ok records => ⟨Status.success, cell.put (.ofString records)⟩
    | .error fault => ⟨fault.code, cell.put .null⟩

/-- Look for packages in other directories from now on, or ask for the directories when no
text is passed: the one place serves both ways. -/
def libpath (engine : Option Engine) (cell : Cell ForeignText) :
    Answer (Cell ForeignText) × Option Engine :=
  match engine, cell with
  | none, _ | _, none => (⟨Status.callFailed, cell⟩, engine)
  | some e, some text =>
    match text.string? with
    | some path => (⟨Status.success, cell⟩, some (e.setLibpath path))
    | none => (⟨Status.success, cell.put (.ofString e.libpath.1)⟩, engine)

/-- The places of a request about memory. -/
structure AllocationCells where
  /-- The limit that is asked for, and then the one in force. -/
  limit : Cell Int32
  /-- The usage in kilobytes. -/
  usage : Cell Int32
  deriving DecidableEq, Repr

/-- Ask for the limit on memory, or change it. -/
def allocationLimit (engine : Option Engine) (usageKb : Int64) (cells : AllocationCells) :
    Answer AllocationCells × Option Engine :=
  match engine with
  | none => (⟨Status.callFailed, cells⟩, none)
  | some e =>
    match e.allocationLimit usageKb cells.limit with
    | (.ok reply, e) =>
      (⟨Status.success,
        { limit := cells.limit.put reply.limitMb
          usage := cells.usage.put (clamp reply.usageKb.toInt) }⟩, some e)
    | (.error fault, e) => (⟨fault.code, cells⟩, some e)

/-! ## Rc-files -/

/-- Write the name of the rc-file that was read by default. -/
def putDefault (cell : Cell ForeignText) (filename : String) : Cell ForeignText :=
  if (TextArgument.string? cell).isNone then cell.put (.ofString filename) else cell

/-- The places of a reading of an rc-file. -/
structure RcFileCells where
  /-- The name of the file; a place without a text asks for the one read by default. -/
  filename : Cell ForeignText
  /-- There is such a file. -/
  found : Cell Int32
  /-- The records of its settings. -/
  options : Cell ForeignText
  deriving DecidableEq, Repr

/-- Read an rc-file without carrying it out. -/
def readRcFile (engine : Option Engine) (fs : FileSystem) (cells : RcFileCells) :
    Answer RcFileCells :=
  match engine with
  | none => ⟨Status.callFailed, cells⟩
  | some e =>
    match e.readRcFile fs (TextArgument.string? cells.filename) with
    | .ok reply =>
      ⟨Status.success,
        { filename := putDefault cells.filename reply.filename
          found := cells.found.put (flag reply.found)
          options := cells.options.put (.ofString? reply.options) }⟩
    | .error fault => ⟨fault.code, cells⟩

/-- The places of an execution of an rc-file. -/
structure RcOutcomeCells where
  /-- The name of the file; a place without a text asks for the one read by default. -/
  filename : Cell ForeignText
  /-- There is such a file. -/
  found : Cell Int32
  /-- All went well. -/
  noErrors : Cell Int32
  deriving DecidableEq, Repr

/-- Carry out an rc-file. -/
def executeRcFile (engine : Option Engine) (fs : FileSystem) (cells : RcOutcomeCells) :
    Answer RcOutcomeCells × Option Engine :=
  match engine with
  | none => (⟨Status.callFailed, cells⟩, none)
  | some e =>
    match e.executeRcFile fs (TextArgument.string? cells.filename) with
    | (.ok reply, e) =>
      (⟨Status.success,
        { filename := putDefault cells.filename reply.filename
          found := cells.found.put (flag reply.found)
          noErrors := cells.noErrors.put (flag reply.noErrors) }⟩, some e)
    | (.error fault, e) => (⟨fault.code, cells⟩, some e)

end PatternEngine.Boundary
