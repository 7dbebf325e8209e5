import PatternEngine.Engine.Basic

/-!
# Launching engines

What engines that run side by side share: the numbers that tell them apart, and the installation
that is used when none is named. That installation is looked for once; what was found the first
time, or that nothing was, holds from then on.
-/

namespace PatternEngine

/-- What engines that run side by side share. -/
structure Launcher where
  /-- The number of the latest engine. -/
  lastEngine : Nat := 0
  /-- What came of looking for the installation, once that was done. -/
  installation : Option (Except EngineError Installation) := none

namespace Launcher

/-- Boot an engine from an installation. -/
def boot (l : Launcher) (installation : Installation) : Engine × Launcher :=
  (.boot (l.lastEngine + 1) installation, { l with lastEngine := l.lastEngine + 1 })

/-- The directory of the installation when none is named. -/
def homeOf (vars : Variables) : String := (vars "ROSIE_HOME").getD "."

/-- The installation that is used when none is named. -/
def installed (l : Launcher) (fs : FileSystem) (vars : Variables) :
    Except EngineError Installation :=
  l.installation.getD (Installation.locate fs vars (homeOf vars))

/-- Boot an engine from the installation that is used when none is named. -/
def create (l : Launcher) (fs : FileSystem) (vars : Variables) :
    Except EngineError Engine × Launcher :=
  let found := l.installed fs vars
  let l := { l with installation := some found }
  match found with
  | .error fault => (.error fault, l)
  | .ok installation =>
    let (engine, l) := l.boot installation
    (.ok engine, l)

end Launcher

end PatternEngine
