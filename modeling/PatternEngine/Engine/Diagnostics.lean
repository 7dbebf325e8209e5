import PatternEngine.Text.Json
import PatternEngine.Violation

/-!
# Diagnostics

The violations that a call reports, and their records as text.
-/

namespace PatternEngine

/-- The record of a violation, its members in ascending order of their keys. -/
def Violation.toJson (v : Violation) : Json :=
  .obj ((v.fragment.map fun fragment => ("ast", Json.str fragment)).toList ++
    [("message", .str v.cause.message)] ++
    (v.origin.map fun origin => ("origin", Json.str origin)).toList ++
    (v.pos.map fun pos => ("pos", Json.nat pos)).toList ++
    [("severity", .str v.cause.severity.name), ("who", .str v.cause.stage.name)])

/-- The violation without the part of the source that is concerned. -/
def Violation.strip (v : Violation) : Violation := { v with fragment := none }

/-- The violations that a call reports, in order. -/
structure Diagnostics where
  /-- The violations. -/
  records : List Violation := []
  deriving DecidableEq, Repr

namespace Diagnostics

/-- There is nothing to report. -/
def isEmpty (d : Diagnostics) : Bool := d.records.isEmpty

/-- The call failed by what it reports. -/
def hasErrors (d : Diagnostics) : Bool := d.records.any (·.isError)

/-- The violations without the parts of sources that are concerned. -/
def strip (d : Diagnostics) : Diagnostics := ⟨d.records.map Violation.strip⟩

/-- The text of the records; none when there is nothing to report. -/
def toText? (d : Diagnostics) : Option String :=
  if d.isEmpty then none else some (Json.arr (d.records.map Violation.toJson)).compact

end Diagnostics

end PatternEngine
