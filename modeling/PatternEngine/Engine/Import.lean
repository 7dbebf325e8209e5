import PatternEngine.Engine.Error
import PatternEngine.Engine.FileSystem
import PatternEngine.Environment.Load

/-!
# Importing packages

The packages that a source imports are looked for in the directories of the library path and
loaded, and so are the packages that these import in turn. A package that is loaded already is
not loaded again, and each name is looked for at most once in a call. A name is given in
bytes, since a path is made from it, and shown as the text that the bytes are.

Packages are not taken out again when another one turns out to be missing.
-/

namespace PatternEngine

/-- What a call has loaded and found. -/
structure ImportState where
  /-- The definitions. -/
  env : Environment
  /-- What there is to report. -/
  messages : List Violation := []
  /-- The names that were looked for. -/
  seen : List String := []
  deriving Repr

/-- A step of an import. What was loaded stays loaded when the step fails. -/
abbrev Importing := ExceptT EngineError (StateM ImportState)

namespace Import

/-- The directories of a library path. -/
def directories (libpath : Bytes) : List Bytes :=
  (libpath.splitOn 0x3a).filter fun dir => !dir.isEmpty

/-- The names of the packages that imports ask for. -/
def namesOf (decls : List ImportDecl) : List Bytes :=
  decls.map fun decl => Bytes.ofString decl.package

/-- The path of the source of a package in a directory. -/
def sourcePath (dir name : Bytes) : Bytes := dir ++ [0x2f] ++ name ++ Bytes.ofString ".rpl"

/-- The path and the content of the first source of a package in some directories. The search
fails at a path that is not text, and at a directory that is named like the source. -/
def findIn (fs : FileSystem) (name : Bytes) :
    List Bytes → Except EngineError (Option (String × Bytes))
  | [] => .ok none
  | dir :: dirs =>
    match Utf8.decode? (sourcePath dir name) with
    | none => .error .runtime
    | some path =>
      match fs.openForReading (Bytes.ofString path) with
      | .error _ => findIn fs name dirs
      | .ok none => .error .runtime
      | .ok (some content) => .ok (some (path, content))

/-- Report a violation. -/
def report (v : Violation) : Importing Unit :=
  modify fun state => { state with messages := state.messages ++ [v] }

/-- Load a package unless it is loaded or was looked for, and then the packages that it imports;
tell whether all went well. -/
def importOne (fs : FileSystem) (libpath : Bytes) (deeper : List Bytes → Importing Bool)
    (source : Bytes) : Importing Bool := do
  let state ← get
  let name := Utf8.decodeLossy source
  if state.env.hasPackage name || state.seen.contains name then return true
  set { state with seen := name :: state.seen }
  match findIn fs source (directories libpath) with
  | .error fault => throw fault
  | .ok none =>
    report { cause := .importing (.notFound name (Utf8.decodeLossy libpath)) }
    return false
  | .ok (some (path, content)) =>
    match state.env.loadPackage name (Utf8.decodeLossy content) (some path) with
    | .error problems =>
      problems.forM report
      return false
    | .ok (loaded, env) =>
      modify fun state => { state with env }
      deeper (namesOf loaded.imports)

/-- Load the packages of a list, each if it is missing; tell whether all went well. A failure
does not keep the others from being loaded. -/
def importEach (fs : FileSystem) (libpath : Bytes) (deeper : List Bytes → Importing Bool) :
    List Bytes → Importing Bool
  | [] => return true
  | name :: names => do
    let first ← importOne fs libpath deeper name
    let others ← importEach fs libpath deeper names
    return first && others

/-- Load the packages of a list and the packages they import, at most `levels` imports away. -/
def importAll (fs : FileSystem) (libpath : Bytes) :
    (levels : Nat) → List Bytes → Importing Bool
  | 0, _ => return true
  | levels + 1, names => importEach fs libpath (importAll fs libpath levels) names

/-- Every import leads to a package that was not loaded before, and each package needs a file of
its own, so the number of files bounds how far away an import can be. -/
def levelsFor (fs : FileSystem) : Nat := fs.files.length + 1

/-- Load the packages of a list and all packages they import; tell whether all went well, what
there is to report, and which definitions there are now. -/
def run (fs : FileSystem) (libpath : Bytes) (env : Environment) (names : List Bytes) :
    Except EngineError Bool × ImportState :=
  (importAll fs libpath (levelsFor fs) names).run.run { env }

end Import

end PatternEngine
