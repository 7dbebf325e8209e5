import PatternEngine.Status

/-!
# Failed calls

What can keep an engine from carrying out a call. A pattern that does not compile, a source
that cannot be stored and a file that cannot be opened are outcomes of a call and not failures
of it.
-/

namespace PatternEngine

/-- Why a call failed. -/
inductive EngineError where
  /-- No handle is left. -/
  | outOfMemory
  /-- A result holds bytes that are not text where text is called for. -/
  | encodingFailed
  /-- The call could not be carried out. -/
  | callFailed (detail : String)
  /-- The installation is incomplete. -/
  | noInstallation (detail : String)
  deriving DecidableEq, Repr

namespace EngineError

/-- The wording of a failure. -/
def message : EngineError → String
  | .outOfMemory => "out of memory"
  | .encodingFailed => "internal encoding failed"
  | .callFailed detail => "engine call failed: " ++ detail
  | .noInstallation detail => "rosie installation not found: " ++ detail

/-- The status code of a failure. -/
def code : EngineError → Int
  | .outOfMemory => Status.outOfMemory
  | .encodingFailed => Status.encodingFailed
  | .callFailed _ => Status.callFailed
  | .noInstallation _ => Status.noInstallation

/-- The failure of a call that went wrong inside the engine. -/
def runtime : EngineError := .callFailed "error in the engine runtime"

end EngineError

end PatternEngine
