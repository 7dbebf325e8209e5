import PatternEngine.Engine.Error
import PatternEngine.Engine.FileSystem

/-!
# Installations

An installation is a directory with the file that engines are booted from. It says where
packages are looked for and which rc-file is read by default.
-/

namespace PatternEngine

/-- How the library path got its value. -/
inductive LibpathSource where
  /-- From the installation. -/
  | installation
  /-- From the environment variable. -/
  | environment
  /-- By a call. -/
  | api
  /-- By an rc-file. -/
  | rcFile
  deriving DecidableEq, Repr

namespace LibpathSource

/-- The name of a source. -/
def name : LibpathSource → String
  | .installation => "default"
  | .environment => "environment"
  | .api => "API"
  | .rcFile => "rcfile"

/-- The source of a name. -/
def ofName? (text : String) : Option LibpathSource :=
  [installation, environment, api, rcFile].find? fun source => source.name == text

end LibpathSource

/-- The environment variables that are set. -/
abbrev Variables := String → Option String

/-- A place that engines are booted from. -/
structure Installation where
  /-- The directory. -/
  home : String
  /-- The file that engines are booted from. -/
  bootscript : String
  /-- The directories where packages are looked for, separated by colons. -/
  libpath : String
  /-- How the library path got its value. -/
  libpathSource : LibpathSource
  /-- The rc-file that is read when none is named. -/
  rcFile : String
  deriving DecidableEq, Repr

namespace Installation

/-- A path below another. -/
def join (base child : String) : String :=
  if base.isEmpty || base.toList.getLast? = some '/' then base ++ child else base ++ "/" ++ child

/-- The rc-file below a home directory, or below the current one when there is no home. -/
def defaultRcFile (userHome : Option String) : String :=
  join ((userHome.filter fun path => !path.isEmpty).getD ".") ".rosierc"

/-- The installation in a directory, given the environment variables. -/
def locate (fs : FileSystem) (vars : Variables) (home : String) :
    Except EngineError Installation :=
  let bootscript := join (join home "lib") "boot.lua"
  if fs.isFile (Bytes.ofString bootscript) then
    let (libpath, source) :=
      match (vars "ROSIE_LIBPATH").filter fun path => !path.isEmpty with
      | some path => (path, LibpathSource.environment)
      | none => (join home "rpl", .installation)
    .ok ⟨home, bootscript, libpath, source, defaultRcFile (vars "HOME")⟩
  else .error (.noInstallation (bootscript ++ " not found"))

end Installation

end PatternEngine
