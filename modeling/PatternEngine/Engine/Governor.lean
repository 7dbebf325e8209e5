/-!
# The allocation governor

A limit on memory counts from the usage at the time it was set. Limits are in megabytes and
usage is in kilobytes, both in words of fixed width.
-/

namespace PatternEngine

/-- A limit on the growth of memory. -/
structure Governor where
  /-- The limit in megabytes; zero for none. -/
  limitMb : Int32 := 0
  /-- The usage in kilobytes when the limit was set. -/
  baselineKb : Int64 := 0
  deriving DecidableEq, Repr

namespace Governor

/-- The smallest limit in megabytes. -/
def leastLimitMb : Int32 := 10

/-- There is a limit. -/
def isLimited (g : Governor) : Bool := 0 < g.limitMb

/-- The governor without a limit. -/
def disabled : Governor := {}

/-- Set a limit over a usage; none when the limit is too small. -/
def set? (limitMb : Int32) (usageKb : Int64) : Option Governor :=
  if limitMb < leastLimitMb then none else some ⟨limitMb, usageKb⟩

/-- The usage in kilobytes that the limit allows. -/
def ceilingKb? (g : Governor) : Option Int64 :=
  if g.isLimited then some (g.baselineKb + g.limitMb.toInt64 * 1024) else none

/-- The usage is more than the limit allows. -/
def exceeded (g : Governor) (usageKb : Int64) : Bool := g.ceilingKb?.any (· < usageKb)

end Governor

end PatternEngine
