import PatternEngine.Encoder
import PatternEngine.Engine.Diagnostics
import PatternEngine.Engine.Import
import PatternEngine.Engine.Installation
import PatternEngine.Engine.Painting
import PatternEngine.Engine.RcFile
import PatternEngine.Environment.Compile
import PatternEngine.Trace

/-!
# Workspaces

A workspace is what an engine works with: the definitions, the compiled programs under their
keys, the library path and the colours. Everything that needs files is given them.
-/

namespace PatternEngine

/-- The form of output of an encoder that needs a workspace. -/
inductive TextEncoder where
  /-- The tree of the match, one item to a line. -/
  | indentedJson
  /-- The texts of the matches directly inside the match. -/
  | subs
  /-- The text of the match with colours. -/
  | color
  deriving DecidableEq, Repr

namespace TextEncoder

/-- All encoders of this kind in the order of their names. -/
def all : List TextEncoder := [.color, .indentedJson, .subs]

/-- The name of an encoder. -/
def name : TextEncoder → String
  | .indentedJson => "jsonpp"
  | .subs => "subs"
  | .color => "color"

/-- The encoder of a name. -/
def ofName? (text : String) : Option TextEncoder := all.find? fun encoder => encoder.name == text

/-- The texts of some matches, one to a line. -/
def joinLines : List Bytes → Bytes
  | [] => []
  | [line] => line
  | line :: lines => line ++ 0x0a :: joinLines lines

/-- The output for a match. -/
def encodeTable (encoder : TextEncoder) (palette : Palette) (table : MatchTable) (input : Bytes) :
    Bytes :=
  match encoder with
  | .indentedJson => Bytes.ofString table.toJson.sortKeys.pretty
  | .color => table.painted palette input
  | .subs =>
    match table.subs with
    | [] => table.text input
    | first :: others => joinLines ((first :: others).map (MatchTable.text input))

end TextEncoder

/-- What a search gives: output or a status, the bytes left over, and whether it was cut short. -/
structure MatchReply where
  /-- The output. -/
  data : Encoded
  /-- Bytes behind the match. -/
  leftover : Nat
  /-- A limit cut the search short. -/
  abend : Bool
  deriving DecidableEq, Repr

/-- A reply that is no more than a status. -/
def MatchReply.ofStatus (code : Int) : MatchReply := ⟨.status code, 0, false⟩

/-- The outcome of a load or an import. -/
structure LoadReply where
  /-- All went well. -/
  ok : Bool
  /-- The package that was defined or imported. -/
  name : Option String
  /-- What there is to report. -/
  messages : Diagnostics
  deriving DecidableEq, Repr

/-- What an engine works with. -/
structure Workspace where
  /-- The definitions. -/
  env : Environment := {}
  /-- The programs under their keys. -/
  programs : List (Nat × Program) := []
  /-- The expressions of the keys that are in use. -/
  expressions : List (Nat × String) := []
  /-- The key given last. -/
  lastKey : Nat := 0
  /-- The directories where packages are looked for, separated by colons. -/
  libpath : Bytes
  /-- How the library path got its value. -/
  libpathSource : LibpathSource
  /-- The colours. -/
  palette : Palette := .initial
  deriving Repr

namespace Workspace

/-- The workspace of an engine that was just booted. -/
def initial (installation : Installation) : Workspace where
  libpath := Bytes.ofString installation.libpath
  libpathSource := installation.libpathSource

/-! ## Programs -/

/-- Compile an expression; give the key of the program, if there is one, and what there is to
report. -/
def compile (w : Workspace) (expression : String) :
    Option (Nat × Program) × Diagnostics × Workspace :=
  match w.env.compile expression with
  | .error problems => (none, ⟨problems⟩, w)
  | .ok compiled =>
    let key := w.lastKey + 1
    (some (key, compiled.program), ⟨compiled.warnings⟩,
      { w with
        programs := (key, compiled.program) :: w.programs
        expressions := (key, expression) :: w.expressions
        lastKey := key })

/-- The key is in use. -/
def isIssued (w : Workspace) (key : Nat) : Bool := (w.expressions.lookup key).isSome

/-- The program of a key. -/
def program? (w : Workspace) (key : Nat) : Option Program := w.programs.lookup key

/-- Give up a key and its program. -/
def release (w : Workspace) (key : Nat) : Workspace :=
  if w.isIssued key then
    { w with
      programs := w.programs.filter fun entry => entry.1 != key
      expressions := w.expressions.filter fun entry => entry.1 != key }
  else w

/-- Search with an encoder of either kind. -/
def replyOf (w : Workspace) (p : Program) (encoder : String) (start : Nat) (input : Bytes) :
    MatchReply :=
  match TextEncoder.ofName? encoder with
  | some encoder =>
    let outcome := p.find input start
    let data := match outcome.tree with
      | some tree => .bytes (encoder.encodeTable w.palette (tree.table input) input)
      | none => .status Status.noMatch
    ⟨data, outcome.leftover, outcome.abend⟩
  | none =>
    match Encoder.ofName? encoder with
    | some encoder =>
      let outcome := p.find input start
      ⟨encoder.encode outcome input, outcome.leftover, outcome.abend⟩
    | none => .ofStatus Status.noEncoder

/-- Search with the program of a key. -/
def matchWith (w : Workspace) (key : Nat) (encoder : String) (start : Nat) (input : Bytes) :
    MatchReply :=
  if w.isIssued key then
    match w.program? key with
    | some p => w.replyOf p encoder start input
    | none => .ofStatus Status.noPattern
  else .ofStatus Status.noPattern

/-! ## Sources -/

/-- Keep the definitions of an import and give what it found. -/
def settle (w : Workspace) (result : Except EngineError Bool × ImportState) :
    Except EngineError (Bool × List Violation) × Workspace :=
  (result.1.map fun ok => (ok, result.2.messages), { w with env := result.2.env })

/-- Load a source and the packages that it imports. The definitions of the source stay when a
package is missing. -/
def load (w : Workspace) (fs : FileSystem) (source : String) (origin : Option String) :
    Except EngineError LoadReply × Workspace :=
  match w.env.load source origin with
  | .error problems => (.ok ⟨false, none, ⟨problems⟩⟩, w)
  | .ok (loaded, env) =>
    let (result, w) := w.settle (Import.run fs w.libpath env (Import.namesOf loaded.imports))
    (result.map fun (ok, messages) => ⟨ok, loaded.package, ⟨messages⟩⟩, w)

/-- Load the source in a file and the packages that it imports. -/
def loadFile (w : Workspace) (fs : FileSystem) (path : String) :
    Except EngineError LoadReply × Workspace :=
  match fs.openForReading (Bytes.ofString path) with
  | .error fault =>
    let problem : Violation :=
      { cause := .loading (.cannotOpen (fault.describe path)), origin := some path }
    (.ok ⟨false, none, ⟨[problem]⟩⟩, w)
  | .ok content => w.load fs (Utf8.decodeLossy (content.getD [])) (some path)

/-- Show a package at top level after it was loaded. -/
def showPackage (w : Workspace) (name : String) (rename : Option String)
    (messages : List Violation) : LoadReply × Workspace :=
  match w.env.bind name rename with
  | .ok env => (⟨true, some name, ⟨messages⟩⟩, { w with env })
  | .error problem => (⟨false, none, ⟨messages ++ [problem]⟩⟩, w)

/-- Load a package unless it is loaded, and show it at top level under a prefix or its own
name. -/
def importPackage (w : Workspace) (fs : FileSystem) (source : Bytes) (rename : Option String) :
    Except EngineError LoadReply × Workspace :=
  let name := Utf8.decodeLossy source
  if w.env.hasPackage name then
    let (reply, w) := w.showPackage name rename []
    (.ok reply, w)
  else
    match w.settle (Import.run fs w.libpath w.env [source]) with
    | (.error fault, w) => (.error fault, w)
    | (.ok (false, messages), w) => (.ok ⟨false, none, ⟨messages⟩⟩, w)
    | (.ok (true, messages), w) =>
      let (reply, w) := w.showPackage name rename messages
      (.ok reply, w)

/-! ## Settings -/

/-- Look for packages in other directories from now on. -/
def setLibpath (w : Workspace) (libpath : Bytes) (source : LibpathSource) : Workspace :=
  { w with libpath, libpathSource := source }

/-- Carry out one setting of an rc-file; tell whether all went well. The name of a file has to
be text. -/
def applyEntry (w : Workspace) (fs : FileSystem) (entry : RcEntry) :
    Except EngineError Bool × Workspace :=
  match entry.key with
  | .libpath => (.ok true, w.setLibpath entry.value .rcFile)
  | .colors => (.ok true, { w with palette := w.palette.set entry.value })
  | .loadfile =>
    match Utf8.decode? entry.value with
    | none => (.error .runtime, w)
    | some path =>
      let (result, w) := w.loadFile fs path
      (result.map (·.ok), w)
  | .importPackage =>
    let (result, w) := w.importPackage fs entry.value none
    (result.map (·.ok), w)

/-- Carry out settings in order, also after one that did not go well; tell whether all did. -/
def applyEntries (w : Workspace) (fs : FileSystem) :
    List RcEntry → Except EngineError Bool × Workspace
  | [] => (.ok true, w)
  | entry :: entries =>
    match w.applyEntry fs entry with
    | (.error fault, w) => (.error fault, w)
    | (.ok first, w) =>
      let (rest, w) := w.applyEntries fs entries
      (rest.map (first && ·), w)

/-- The settings of an rc-file: none when there is no such file, and none inside when it is
malformed. -/
def readRcFile (fs : FileSystem) (path : Bytes) :
    Except EngineError (Option (Option (List RcEntry))) :=
  match fs.openForReading path with
  | .error _ => .ok none
  | .ok content => (RcFile.parse? (content.getD [])).map some

/-- Carry out an rc-file; tell whether it exists and whether all went well. A missing file is
as it should be only if it is the one read by default. -/
def executeRcFile (w : Workspace) (fs : FileSystem) (path : Bytes) (isDefault : Bool) :
    Except EngineError (Bool × Bool) × Workspace :=
  match readRcFile fs path with
  | .error fault => (.error fault, w)
  | .ok none => (.ok (false, isDefault), w)
  | .ok (some none) => (.ok (true, false), w)
  | .ok (some (some entries)) =>
    let (result, w) := w.applyEntries fs entries
    (result.map fun ok => (true, ok), w)

/-- The version of the engine. -/
def engineVersion : String := "0.1.0"

/-- The version of the pattern language. -/
def languageVersion : String := "1.3"

/-- One record of the configuration. -/
def configRecord (name value description : String) : Json :=
  .obj [("desc", .str description), ("name", .str name), ("value", .str value)]

/-- The configuration; none when the library path is not text. -/
def config? (w : Workspace) (installation : Installation) : Option Json := do
  let libpath ← Utf8.decode? w.libpath
  let encoders := Encoder.all.map Encoder.name ++ TextEncoder.all.map TextEncoder.name
  some (.arr
    [configRecord "ROSIE_HOME" installation.home "location of the rosie installation",
      configRecord "ROSIE_VERSION" engineVersion "version of the rosie engine",
      configRecord "RPL_VERSION" languageVersion "version of the pattern language",
      configRecord "ROSIE_LIBPATH" libpath "directories searched by import",
      configRecord "ROSIE_LIBPATH_SOURCE" w.libpathSource.name "how the libpath was set",
      configRecord "ROSIE_ENCODERS" (String.intercalate "," encoders) "available output encoders",
      configRecord "ROSIE_PACKAGES" (String.intercalate "," w.env.packageNames)
        "packages loaded in this engine",
      configRecord "ROSIE_RCFILE" installation.rcFile "default rc-file"])

end Workspace

end PatternEngine
