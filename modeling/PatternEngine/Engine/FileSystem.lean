import PatternEngine.Lookup
import PatternEngine.Text.Utf8

/-!
# Files

A finite tree of files below one directory. Directories are not stored: a directory is what
some file lies below. Paths are byte texts of components separated by slashes; they start at
the directory of the tree, and nothing but directories is known outside it.
-/

namespace PatternEngine

/-- Why a file cannot be opened. -/
inductive FileFault where
  /-- There is no such file. -/
  | notFound
  /-- A component before the last is a file. -/
  | notDirectory
  /-- A directory cannot be written. -/
  | isDirectory
  /-- The path or one of its components is too long. -/
  | nameTooLong
  /-- The path holds a null byte. -/
  | nullByte
  deriving DecidableEq, Repr

/-- The wording of a fault. -/
def FileFault.message : FileFault → String
  | .notFound => "No such file or directory (os error 2)"
  | .notDirectory => "Not a directory (os error 20)"
  | .isDirectory => "Is a directory (os error 21)"
  | .nameTooLong => "File name too long (os error 36)"
  | .nullByte => "file name contained an unexpected NUL byte"

/-- The wording of a fault with the path in front. -/
def FileFault.describe (fault : FileFault) (path : String) : String :=
  path ++ ": " ++ fault.message

/-- Files under their paths, a path being the list of its components. -/
structure FileSystem where
  /-- The files. -/
  files : List (List Bytes × Bytes) := []
  deriving DecidableEq, Repr

/-- What a path leads to. -/
inductive FileTarget where
  /-- A file with its content. -/
  | file (location : List Bytes) (content : Bytes)
  /-- A directory. -/
  | directory
  /-- Nothing, in a directory that exists. -/
  | vacant (location : List Bytes)
  deriving DecidableEq, Repr

namespace FileSystem

/-- The content of the file at a location. -/
def find? (fs : FileSystem) (location : List Bytes) : Option Bytes := fs.files.lookup location

/-- Some file lies below the location. -/
def isDirectory (fs : FileSystem) (location : List Bytes) : Bool :=
  location.isEmpty || fs.files.any fun file =>
    location.isPrefixOf file.1 && location.length < file.1.length

/-- Give the file at a location a content. -/
def put (fs : FileSystem) (location : List Bytes) (content : Bytes) : FileSystem :=
  ⟨(location, content) :: fs.files.filter fun file => file.1 != location⟩

/-- A file that is put changes what lies at its own location alone. -/
theorem find?_put (fs : FileSystem) (location other : List Bytes) (content : Bytes) :
    (fs.put location content).find? other =
      if other = location then some content else fs.find? other := by
  by_cases h : other = location
  · simp [find?, put, h]
  · simp [find?, put, lookup_cons_ite, h, lookup_filter_key (· != location)]

/-- The components of a path. -/
def components (path : Bytes) : List Bytes := path.splitOn 0x2f

/-- The component stays in the directory it starts from. -/
def isStay (component : Bytes) : Bool := component == [] || component == [0x2e]

/-- The component goes up to the directory above. -/
def isRise (component : Bytes) : Bool := component == [0x2e, 0x2e]

/-- Bytes of the longest component of a path. -/
def longestComponent : Nat := 255

/-- Bytes of the longest path. -/
def longestPath : Nat := 4095

/-- The component is too long to be looked for. -/
def isTooLong (component : Bytes) : Bool := longestComponent < component.length

/-- What components lead to that start outside the tree: directories as long as they only stay
or rise, and nothing that is known otherwise. -/
def outside : List Bytes → Except FileFault FileTarget
  | [] => .ok .directory
  | component :: rest =>
    if isStay component || isRise component then outside rest
    else if isTooLong component then .error .nameTooLong
    else .error .notFound

/-- Follow components from a directory on. -/
def follow (fs : FileSystem) : List Bytes → List Bytes → Except FileFault FileTarget
  | _, [] => .ok .directory
  | location, component :: rest =>
    if isStay component then fs.follow location rest
    else if isRise component then
      if location = [] then outside rest else fs.follow location.dropLast rest
    else if isTooLong component then .error .nameTooLong
    else
      let next := location ++ [component]
      if fs.isDirectory next then fs.follow next rest
      else match fs.find? next, rest with
        | some content, [] => .ok (.file next content)
        | some _, _ :: _ => .error .notDirectory
        | none, [] => .ok (.vacant next)
        | none, _ :: _ => .error .notFound

/-- Refuse what cannot be a path. -/
def checkPath (path : Bytes) : Except FileFault Unit :=
  if path.contains 0 then .error .nullByte
  else if path = [] then .error .notFound
  else if longestPath < path.length then .error .nameTooLong
  else .ok ()

/-- Follow the components of a path. -/
def walk (fs : FileSystem) (path : Bytes) : Except FileFault FileTarget :=
  if path.head? = some 0x2f then outside (components path) else fs.follow [] (components path)

/-- What a path leads to. -/
def resolve (fs : FileSystem) (path : Bytes) : Except FileFault FileTarget := do
  checkPath path
  fs.walk path

/-- Open a file for reading, with its content. A directory can be opened but has none. -/
def openForReading (fs : FileSystem) (path : Bytes) : Except FileFault (Option Bytes) := do
  match ← fs.resolve path with
  | .file _ content => .ok (some content)
  | .directory => .ok none
  | .vacant _ => .error .notFound

/-- The path leads to a file. -/
def isFile (fs : FileSystem) (path : Bytes) : Bool :=
  match fs.openForReading path with
  | .ok (some _) => true
  | _ => false

/-- The path of the directory around what a path with slashes at its end names. -/
def around (path : Bytes) : Bytes :=
  ((path.reverse.dropWhile (· == 0x2f)).dropWhile (· != 0x2f)).reverse ++ [0x2e]

/-- Open a file for writing, made or emptied, with its location. A slash at the end asks for a
directory, whether there is one or not. -/
def openForWriting (fs : FileSystem) (path : Bytes) :
    Except FileFault (List Bytes × FileSystem) := do
  checkPath path
  if path.getLast? = some 0x2f then
    let _ ← fs.walk (around path)
    .error .isDirectory
  else
    match ← fs.walk path with
    | .file location _ | .vacant location => .ok (location, fs.put location [])
    | .directory => .error .isDirectory

/-- Give the file of a path a content, wherever the path leads. -/
def writeFile (fs : FileSystem) (path content : Bytes) : FileSystem :=
  fs.put ((components path).filter fun component => !isStay component) content

end FileSystem

/-- The files and the standard streams. -/
structure Host where
  /-- The files. -/
  files : FileSystem := {}
  /-- What is still to be read from the standard input. -/
  input : Bytes := []
  /-- What was written to the standard output. -/
  output : Bytes := []
  /-- What was written to the standard error output. -/
  errors : Bytes := []
  deriving DecidableEq, Repr

end PatternEngine
