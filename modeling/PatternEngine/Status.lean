/-!
# Status codes

The numbers that stand for an outcome where a call gives no data.
-/

namespace PatternEngine.Status

/-- The call did what it was asked to. -/
def success : Int := 0

/-- A search found no match. -/
def noMatch : Int := 0

/-- A search found a match, and no more than that was asked. -/
def isMatch : Int := 1

/-- A file could not be used. -/
def fileFault : Int := 3

/-- Something does not fit. -/
def outOfMemory : Int := -2

/-- A result could not be encoded. -/
def encodingFailed : Int := -3

/-- A call could not be carried out. -/
def callFailed : Int := -4

/-- No encoder has the given name. -/
def noEncoder : Int := -5

/-- The handle is not that of a pattern of this engine. -/
def noPattern : Int := -6

/-- The installation is incomplete. -/
def noInstallation : Int := -7

end PatternEngine.Status
