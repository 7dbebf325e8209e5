import PatternEngine.Boundary.Calls
import PatternEngine.Engine.Launcher

/-!
# Creating engines at the boundary

An engine that cannot be created is no engine, with a message that says why.
-/

namespace PatternEngine.Boundary

/-- Create an engine. -/
def create (l : Launcher) (fs : FileSystem) (vars : Variables) (messages : Cell ForeignText) :
    Option Engine × Cell ForeignText × Launcher :=
  match l.create fs vars with
  | (.ok engine, l) => (some engine, messages.put .null, l)
  | (.error fault, l) => (none, messages.put (.ofString fault.message), l)

end PatternEngine.Boundary
